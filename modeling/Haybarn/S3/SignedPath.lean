import Haybarn.Lib.HttpUrl
import Haybarn.S3.UriEncode

/-!
# What is signed is what is sent

A request to S3 is signed with the host and the path that `getS3Params` takes from the endpoint and
the `s3://` URL (utils/s3_helper.ts), and sent to the URL that `getHTTPUrl` puts together from the
same two. The server takes the path as it was sent, decodes it, encodes it byte by byte as
`uriEncode` does, and refuses the request where that is not what was signed.

`signed_is_sent` says when the two agree. They do not for an endpoint `https://host:9000/`: the
slash is left out of what is signed, and doubled in what is sent (`trailing_slash_is_not_signed`).

Mirroring notes:
- A configuration without a field is one with `''` in it: both are falsy, and `?? ''` makes one of
  the other.
- The two `new Date()` are texts that the caller hands in.
- The digests are a parameter: what is signed is the text that they are taken of.
- Errors are the texts of them. `new URL` throws for an endpoint that is no URL; one with another
  scheme than http or https makes no request, and is taken for such.
-/

namespace Haybarn.S3

open Haybarn.Lib Haybarn.Lib.HttpUrl

/-! ## The code -/

structure S3Config where
  endpoint : Text := []
  region : Text := []
  accessKeyId : Text := []
  secretAccessKey : Text := []
  sessionToken : Text := []

structure S3Params where
  url : Text
  query : Text
  host : Text
  region : Text
  service : Text
  method : Text
  accessKeyId : Text
  secretAccessKey : Text
  sessionToken : Text
  dateNow : Text
  datetimeNow : Text

structure S3PayloadParams where
  contentHash : Option Text
  contentType : Text

def parseS3Url (url : Text) : Except String (Text × Text) :=
  if !"s3://".toList.isPrefixOf url then .error "URL needs to start with s3://"
  else
    let rest := url.drop 5
    if !rest.contains '/' then .error "URL needs to contain a '/' after the host"
    else
      let bucket := rest.takeWhile (· != '/')
      let path := rest.dropWhile (· != '/')
      if bucket = [] then .error "URL needs to contain a bucket name"
      else if path = [] then .error "URL needs to contain key"
      else .ok (bucket, path)

/-- `config?.endpoint`, which is falsy where there is none. -/
def endpointOf (config : Option S3Config) : Text := (config.map (·.endpoint)).getD []

def startsWithHttp (endpoint : Text) : Bool := "http".toList.isPrefixOf endpoint

def isPathStyleAccess (config : Option S3Config) : Bool := startsWithHttp (endpointOf config)

/-- `new URL(text)`. -/
def urlOf (hosts : HostParser) (text : Text) : Except String Url :=
  match newUrl hosts text with
  | some url => .ok url
  | none => .error "Invalid URL"

/-- `${bucket}.${config?.endpoint}`, or the default of AWS. -/
def bucketHost (config : Option S3Config) (bucket : Text) : Text :=
  if endpointOf config ≠ [] then bucket ++ '.' :: endpointOf config
  else bucket ++ ".s3.amazonaws.com".toList

def getHTTPHost (hosts : HostParser) (config : Option S3Config) (bucket : Text) :
    Except String Text :=
  if startsWithHttp (endpointOf config) then
    return (← urlOf hosts (endpointOf config)).host
  else return bucketHost config bucket

/-- The path of the endpoint, as far as it is signed. -/
def endpointPath (url : Url) : Text := if url.pathname ≠ ['/'] then url.pathname else []

def signedUrl (hosts : HostParser) (config : Option S3Config) (bucket path : Text) :
    Except String Text :=
  if isPathStyleAccess config then
    return endpointPath (← urlOf hosts (endpointOf config)) ++ '/' :: bucket ++ path
  else return path

def getS3Params (hosts : HostParser) (config : Option S3Config) (url method : Text)
    (date datetime : Text) : Except String S3Params := do
  let (bucket, path) ← parseS3Url url
  let path ← signedUrl hosts config bucket path
  let host ← getHTTPHost hosts config bucket
  return {
    url := path
    query := []
    host
    region := (config.map (·.region)).getD []
    service := "s3".toList
    method
    accessKeyId := (config.map (·.accessKeyId)).getD []
    secretAccessKey := (config.map (·.secretAccessKey)).getD []
    sessionToken := (config.map (·.sessionToken)).getD []
    dateNow := (date.filter (· != '-')).takeWhile (· != 'T')
    datetimeNow :=
      ((datetime.filter (· != '-')).filter (· != ':')).takeWhile (· != '.') ++ ['Z'] }

def getHTTPUrl (config : Option S3Config) (url : Text) : Except String Text := do
  let (bucket, path) ← parseS3Url url
  if isPathStyleAccess config then return endpointOf config ++ '/' :: bucket ++ path
  return "https://".toList ++ bucketHost config bucket ++ path

/-- The path as it stands in the canonical request. -/
def canonicalPath (params : S3Params) : Text := uriEncode (params.url.flatMap encodeUtf16)

/-- sha256 of the empty string. -/
def emptyPayloadHash : Text :=
  "e3b0c44298fc1c149afbf4c8996fb92427ae41e4649b934ca495991b7852b855".toList

def payloadHash (payloadParams : Option S3PayloadParams) : Text :=
  (payloadParams.bind (·.contentHash)).getD emptyPayloadHash

def contentType (payloadParams : Option S3PayloadParams) : Text :=
  (payloadParams.map (·.contentType)).getD []

def signedHeaders (params : S3Params) (payloadParams : Option S3PayloadParams) : Text :=
  (if contentType payloadParams ≠ [] then "content-type;".toList else [])
    ++ "host;x-amz-content-sha256;x-amz-date".toList
    ++ (if params.sessionToken ≠ [] then ";x-amz-security-token".toList else [])

def canonicalRequest (params : S3Params) (payloadParams : Option S3PayloadParams) : Text :=
  params.method ++ '\n' :: canonicalPath params ++ '\n' :: params.query
    ++ (if contentType payloadParams ≠ [] then
        "\ncontent-type:".toList ++ contentType payloadParams else [])
    ++ "\nhost:".toList ++ params.host
    ++ "\nx-amz-content-sha256:".toList ++ payloadHash payloadParams
    ++ "\nx-amz-date:".toList ++ params.datetimeNow
    ++ (if params.sessionToken ≠ [] then
        "\nx-amz-security-token:".toList ++ params.sessionToken else [])
    ++ "\n\n".toList ++ signedHeaders params payloadParams ++ '\n' :: payloadHash payloadParams

/-- js-sha256. -/
structure Digest (Key : Type) where
  sha256 : Text → Text
  hmacText : Text → Text → Key
  hmac : Key → Text → Key
  hmacHex : Key → Text → Text

def createS3Headers {Key : Type} (digest : Digest Key) (params : S3Params)
    (payloadParams : Option S3PayloadParams) : List (String × Text) :=
  let scope := params.dateNow ++ '/' :: params.region ++ '/' :: params.service
    ++ "/aws4_request".toList
  let stringToSign := "AWS4-HMAC-SHA256\n".toList ++ params.datetimeNow ++ '\n' :: scope
    ++ '\n' :: digest.sha256 (canonicalRequest params payloadParams)
  let kDate := digest.hmacText ("AWS4".toList ++ params.secretAccessKey) params.dateNow
  let kService := digest.hmac (digest.hmac kDate params.region) params.service
  let signature := digest.hmacHex (digest.hmac kService "aws4_request".toList) stringToSign
  [("x-amz-date", params.datetimeNow), ("x-amz-content-sha256", payloadHash payloadParams)]
    ++ (if params.sessionToken ≠ [] then [("x-amz-security-token", params.sessionToken)] else [])
    ++ [("Authorization", "AWS4-HMAC-SHA256 Credential=".toList ++ params.accessKeyId
      ++ '/' :: scope ++ ", SignedHeaders=".toList ++ signedHeaders params payloadParams
      ++ ", Signature=".toList ++ signature)]

/-! ## What the server makes of the path -/

/-- The path as it was sent, decoded and encoded byte by byte. -/
def sentPath (pathname : Text) : Text :=
  (percentDecode pathname).flatMap fun b => uriEncodeUnit false (UInt16.ofNat b.toNat)

/-- What is signed is what is sent. -/
structure Agrees (params : S3Params) (sent : Url) : Prop where
  host : params.host = sent.host
  path : canonicalPath params = sentPath sent.pathname

/-! ## When the two agree -/

/-- A text that is sent as it is signed: the key, and in path style the bucket before it. -/
structure KeyKept (cs : Text) : Prop where
  ascii : ∀ c ∈ cs, c.toNat < 128
  /-- no tab or line end, no query or fragment, no backslash -/
  plain : ∀ c ∈ cs, isNewline c = false ∧ isQuery c = false ∧ c ≠ '\\'
  /-- no blank at the end -/
  unblank : cs.rdropWhile isBlank = cs
  undotted : ∀ s ∈ cs.splitOnP isSlash, s ≠ ['.'] ∧ s ≠ ['.', '.']
  ungrouped : hasGroup cs = false

/-- An endpoint whose path is signed as it is sent: that path is nothing, or ends in a dot segment
if it comes to `/`, and only then. -/
structure EndpointKept (endpoint : Text) : Prop where
  noQuery : ∀ c ∈ endpoint, isQuery c = false
  unblank : (dropNewlines endpoint).rdropWhile isBlank = dropNewlines endpoint
  path : ∀ p, parts endpoint = some p →
    (p.path = [] ∨ (endsInDot p.path = true ↔ pathname p.path = ['/'])) ∧
      hasGroup (pathname p.path) = false

def SentAsSigned (hosts : HostParser) (config : Option S3Config) (bucket path : Text) : Prop :=
  if isPathStyleAccess config then
    EndpointKept (endpointOf config) ∧ KeyKept (bucket ++ path)
  else
    hosts.parse .https (bucketHost config bucket) = some (bucketHost config bucket) ∧
      KeyKept path.tail

/-! ## The path as bytes -/

/-- The bytes that the code takes a text for. -/
def latin (cs : Text) : List UInt8 := cs.map fun c => UInt8.ofNat c.toNat

theorem latin_append (cs ds : Text) : latin (cs ++ ds) = latin cs ++ latin ds :=
  List.map_append

theorem utf8_of_ascii {cs : Text} (h : ∀ c ∈ cs, c.toNat < 128) : utf8 cs = latin cs :=
  textEncode_of_ascii h

theorem uriEncode_latin {cs : Text} (h : ∀ c ∈ cs, c.toNat < 256) :
    uriEncode (cs.flatMap encodeUtf16) =
      (latin cs).flatMap fun b => uriEncodeUnit false (UInt16.ofNat b.toNat) := by
  rw [uriEncode_eq]
  unfold latin
  induction cs with
  | nil => rfl
  | cons c cs ih =>
    have hc := h c List.mem_cons_self
    rw [List.flatMap_cons, List.flatMap_append, ih fun d hd => h d (List.mem_cons_of_mem _ hd),
      encodeUtf16_of_lt hc, List.flatMap_singleton, List.map_cons, List.flatMap_cons,
      UInt8.toNat_ofNat', Nat.mod_eq_of_lt (by omega)]

/-- The signed path is the sent one if the bytes are those that the path decodes to. -/
theorem canonicalPath_eq_sentPath {params : S3Params} {path : Text} :
    canonicalPath params = sentPath path ↔
      (∀ c ∈ params.url, c.toNat < 256) ∧ latin params.url = percentDecode path := by
  have hbytes : ∀ u ∈ (percentDecode path).map fun b => UInt16.ofNat b.toNat, u.toNat < 256 := by
    intro u hu
    obtain ⟨b, -, rfl⟩ := List.mem_map.mp hu
    have hlt := b.toNat_lt
    rw [UInt16.toNat_ofNat']
    omega
  have hsent : sentPath path = ((percentDecode path).map fun b =>
      UInt16.ofNat b.toNat).flatMap (uriEncodeUnit false) := by
    unfold sentPath
    rw [List.flatMap_map]
  have hdecode : percentDecode (sentPath path) = percentDecode path := by
    rw [hsent, percentDecode_uriEncode false hbytes, List.map_map]
    conv_rhs => rw [← List.map_id (percentDecode path)]
    refine List.map_congr_left fun b _ => ?_
    have hlt := b.toNat_lt
    rw [Function.comp_apply, UInt16.toNat_ofNat', Nat.mod_eq_of_lt (by omega), UInt8.ofNat_toNat]
    rfl
  unfold canonicalPath
  constructor
  · intro h
    have hencoded := encoded_uriEncode false hbytes
    rw [← hsent, ← h, uriEncode_eq] at hencoded
    have hunits := bytes_of_encoded false hencoded
    have hchars : ∀ c ∈ params.url, c.toNat < 256 := by
      have := (@forall_mem_utf16 (String.ofList params.url)).mp
      unfold utf16 at this
      rw [String.toList_ofList] at this
      exact this hunits
    refine ⟨hchars, ?_⟩
    rw [← hdecode, ← h, uriEncode_eq, percentDecode_uriEncode false hunits, bytes_utf16 hchars]
    rfl
  · rintro ⟨hchars, h⟩
    rw [uriEncode_latin hchars, h]
    rfl

theorem weight_latin {cs : Text} (h : ∀ c ∈ cs, c.toNat < 256) :
    weight (latin cs) = weight (utf8 cs) := by
  induction cs with
  | nil => rfl
  | cons c cs ih =>
    have hc := h c List.mem_cons_self
    have ih := ih fun d hd => h d (List.mem_cons_of_mem _ hd)
    have hlatin : latin (c :: cs) = UInt8.ofNat c.toNat :: latin cs := rfl
    rw [hlatin, weight_cons, utf8_cons, weight_append, ih]
    by_cases hlt : c.toNat < 128
    · rw [encodeChar_of_lt hlt, weight_cons, weight_nil]
      rfl
    · have hwide : byteWeight (UInt8.ofNat c.toNat) = 0 := by
        unfold byteWeight
        rw [if_pos]
        rw [UInt8.toNat_ofNat']
        omega
      rw [hwide, weight_wide (by omega)]

/-! ## What is left of the key -/

/-- The key as a browser reads it: up to a query, without the blanks at its end. -/
def readKey (cs : Text) : Text := (tidyEnd cs).takeWhile (!isQuery ·)

theorem isBlank_lt {c : Char} (h : isBlank c = true) : c.toNat < 128 := by
  unfold isBlank at h
  rw [decide_eq_true_eq] at h
  omega

theorem isNewline_lt {c : Char} (h : isNewline c = true) : c.toNat < 128 := by
  unfold isNewline at h
  simp only [Bool.or_eq_true, beq_iff_eq] at h
  obtain (rfl | rfl) | rfl := h <;> decide

theorem isQuery_lt {c : Char} (h : isQuery c = true) : c.toNat < 128 := by
  unfold isQuery at h
  simp only [Bool.or_eq_true, beq_iff_eq] at h
  obtain rfl | rfl := h <;> decide

/-- What a browser keeps of the key has no more weight, and the same only if it is the key. -/
theorem weight_readKey (cs : Text) :
    weight (utf8 (readKey cs)) ≤ weight (utf8 cs) ∧
      (weight (utf8 (readKey cs)) = weight (utf8 cs) → readKey cs = cs ∧
        cs.rdropWhile isBlank = cs ∧ ∀ c ∈ cs, isNewline c = false ∧ isQuery c = false) := by
  have hdrop := weight_rdropWhile (fun c => @isBlank_lt c) cs
  have hfilter := weight_filter (p := (!isNewline ·)) (fun c hc => isNewline_lt (by simpa using hc))
    (cs.rdropWhile isBlank)
  have htake := weight_takeWhile (p := (!isQuery ·)) (fun c hc => isQuery_lt (by simpa using hc))
    (tidyEnd cs)
  have htidy : weight (utf8 (tidyEnd cs)) =
      weight (utf8 ((cs.rdropWhile isBlank).filter (!isNewline ·))) := rfl
  have hread : weight (utf8 (readKey cs)) =
      weight (utf8 ((tidyEnd cs).takeWhile (!isQuery ·))) := rfl
  refine ⟨by omega, fun heq => ?_⟩
  have hunblank : cs.rdropWhile isBlank = cs := by
    by_contra hne
    rw [if_neg hne] at hdrop
    omega
  have hnewlines : (cs.rdropWhile isBlank).all (!isNewline ·) = true := by
    by_contra hne
    rw [if_neg hne] at hfilter
    omega
  have hqueries : (tidyEnd cs).all (!isQuery ·) = true := by
    by_contra hne
    rw [if_neg hne] at htake
    omega
  rw [hunblank, List.all_eq_true] at hnewlines
  have htidyEnd : tidyEnd cs = cs := by
    unfold tidyEnd dropNewlines
    rw [hunblank, List.filter_eq_self.mpr hnewlines]
  rw [htidyEnd, List.all_eq_true] at hqueries
  refine ⟨?_, hunblank, fun c hc => ⟨?_, ?_⟩⟩
  · unfold readKey
    rw [htidyEnd, List.takeWhile_eq_self_iff.mpr hqueries]
  · simpa using hnewlines c hc
  · simpa using hqueries c hc

theorem KeyKept.readKey_eq {cs : Text} (h : KeyKept cs) : readKey cs = cs := by
  have htidyEnd : tidyEnd cs = cs := by
    unfold tidyEnd dropNewlines
    rw [h.unblank, List.filter_eq_self.mpr fun c hc => by simp [(h.plain c hc).1]]
  unfold readKey
  rw [htidyEnd, List.takeWhile_eq_self_iff.mpr fun c hc => by simp [(h.plain c hc).2.1]]

/-! ## The path that is sent -/

theorem weight_split (cs : Text) :
    weight (pathBytes ((cs.splitOnP isSlash).map encode)) +
        ((if hasGroup (slashed cs) then 1 else 0) + (if '\\' ∈ cs then 1 else 0)) ≤
      1 + weight (utf8 cs) := by
  have hslashed := weight_slashed cs
  have hdecode := weight_percentDecode (slashed cs)
  have hslash : byteWeight 47 = 1 := rfl
  rw [pathBytes_encode, pathBytes_split, weight_cons, hslash]
  omega

theorem encode_dots : encode ['.'] = ['.'] ∧ encode ['.', '.'] = ['.', '.'] := by
  decide

/-- A segment without a group that is read as a dot segment is one as it stands. -/
theorem isDot_encode {s : Text} (hascii : ∀ c ∈ s, c.toNat < 128) (hgroup : hasGroup s = false)
    (hdot : isDot (encode s) = true) : s = ['.'] ∨ s = ['.', '.'] := by
  have hbytes : percentDecode (encode s) = [46] ∨ percentDecode (encode s) = [46, 46] := by
    unfold isDot isSingleDot isDoubleDot at hdot
    simp only [Bool.or_eq_true, List.any_eq_true, beq_iff_eq] at hdot
    obtain ⟨t, ht, heq⟩ | ⟨t, ht, heq⟩ := hdot <;> rw [← heq] <;>
      simp only [List.mem_cons, List.not_mem_nil, or_false] at ht
    · left
      obtain rfl | rfl | rfl := ht <;> decide
    · right
      obtain rfl | rfl | rfl | rfl | rfl | rfl | rfl | rfl | rfl := ht <;> decide
  have hlatin : percentDecode (encode s) = latin s := by
    rw [percentDecode_encode, percentDecode_of_ungrouped hgroup, ← utf8_of_ascii hascii]
    rfl
  have hpoint : ∀ c ∈ s, UInt8.ofNat c.toNat = 46 → c = '.' := by
    intro c hc heq
    have hlt := hascii c hc
    have hnat := congrArg UInt8.toNat heq
    rw [UInt8.toNat_ofNat', Nat.mod_eq_of_lt (by omega)] at hnat
    exact Char.toNat_inj.mp hnat
  rw [hlatin] at hbytes
  unfold latin at hbytes
  obtain hone | htwo := hbytes
  · obtain ⟨c, rfl, hc⟩ := List.map_eq_singleton_iff.mp hone
    rw [hpoint c List.mem_cons_self hc]
    exact Or.inl rfl
  · obtain ⟨c, cs, rfl, hc, hcs⟩ := List.map_eq_cons_iff.mp htwo
    obtain ⟨d, rfl, hd⟩ := List.map_eq_singleton_iff.mp hcs
    rw [hpoint c List.mem_cons_self hc, hpoint d (List.mem_cons_of_mem _ List.mem_cons_self) hd]
    exact Or.inr rfl

/-- A segment of a text is a part of it. -/
theorem hasGroup_of_split {p : Char → Bool} {cs : Text} (h : hasGroup cs = false) :
    ∀ s ∈ cs.splitOnP p, hasGroup s = false := by
  induction cs with
  | nil =>
    intro s hs
    rw [List.splitOnP_nil, List.mem_singleton] at hs
    rw [hs]
    rfl
  | cons c cs ih =>
    simp only [hasGroup, Bool.or_eq_false_iff, Bool.and_eq_false_iff] at h
    obtain ⟨t, ts, rest, hsplit, hcs⟩ := exists_splitOnP p cs
    have ih := ih h.2
    intro s hs
    rw [List.splitOnP_cons_eq_if_modifyHead] at hs
    split at hs
    next =>
      obtain rfl | hs := List.mem_cons.mp hs
      · rfl
      · exact ih s hs
    next =>
      rw [hsplit, List.modifyHead_cons, List.mem_cons] at hs
      rw [hsplit] at ih
      obtain rfl | hs := hs
      · have ht := ih t List.mem_cons_self
        simp only [hasGroup, Bool.or_eq_false_iff, Bool.and_eq_false_iff, ht, and_true]
        refine h.1.imp id fun hstart => ?_
        cases hgroup : startsGroup t with
        | false => rfl
        | true => rw [hcs, startsGroup_of_append hgroup] at hstart; cases hstart
      · exact ih s (List.mem_cons_of_mem _ hs)

theorem mem_of_split {p : Char → Bool} {cs : Text} :
    ∀ s ∈ cs.splitOnP p, ∀ c ∈ s, c ∈ cs := by
  induction cs with
  | nil =>
    intro s hs c hc
    rw [List.splitOnP_nil, List.mem_singleton] at hs
    rw [hs] at hc
    exact hc
  | cons d cs ih =>
    obtain ⟨t, ts, rest, hsplit, -⟩ := exists_splitOnP p cs
    intro s hs c hc
    rw [List.splitOnP_cons_eq_if_modifyHead] at hs
    split at hs
    next =>
      obtain rfl | hs := List.mem_cons.mp hs
      · cases hc
      · exact List.mem_cons_of_mem _ (ih s hs c hc)
    next =>
      rw [hsplit, List.modifyHead_cons, List.mem_cons] at hs
      rw [hsplit] at ih
      obtain rfl | hs := hs
      · obtain rfl | hc := List.mem_cons.mp hc
        · exact List.mem_cons_self
        · exact List.mem_cons_of_mem _ (ih t List.mem_cons_self c hc)
      · exact List.mem_cons_of_mem _ (ih s (List.mem_cons_of_mem _ hs) c hc)

theorem slashed_eq {cs : Text} (h : '\\' ∉ cs) : slashed cs = cs := by
  unfold slashed
  conv_rhs => rw [← List.map_id cs]
  refine List.map_congr_left fun c hc => ?_
  rw [if_neg]
  · rfl
  · rintro rfl
    exact h hc

theorem KeyKept.not_mem_backslash {cs : Text} (h : KeyKept cs) : '\\' ∉ cs :=
  fun hmem => (h.plain _ hmem).2.2 rfl

theorem KeyKept.undotted_encode {cs : Text} (h : KeyKept cs) :
    ∀ s ∈ (cs.splitOnP isSlash).map encode, isDot s = false := by
  intro s hs
  obtain ⟨t, ht, rfl⟩ := List.mem_map.mp hs
  cases hdot : isDot (encode t) with
  | false => rfl
  | true =>
    have hplain := h.undotted t ht
    obtain hone | htwo := isDot_encode (fun c hc => h.ascii c (mem_of_split t ht c hc))
      (hasGroup_of_split h.ungrouped t ht) hdot
    · exact absurd hone hplain.1
    · exact absurd htwo hplain.2

/-- The bytes of a path that ends in a key of this kind. -/
theorem KeyKept.pathBytes_walk {cs : Text} (h : KeyKept cs) (path : List Text) :
    pathBytes (walk path (((readKey cs).splitOnP isSlash).map encode)) =
      pathBytes path ++ 47 :: latin cs := by
  rw [h.readKey_eq, walk_undotted h.undotted_encode, pathBytes_append, pathBytes_encode,
    pathBytes_split, slashed_eq h.not_mem_backslash, percentDecode_of_ungrouped h.ungrouped,
    ← utf8_of_ascii h.ascii]
  rfl

/-- The path that is sent has no more weight than what is kept of the endpoint and the key. -/
theorem weight_sent (path : List Text) (cs : Text) :
    weight (pathBytes (walk path (((readKey cs).splitOnP isSlash).map encode))) +
        (if (((readKey cs).splitOnP isSlash).map encode).any isDot then 2 else 0) ≤
      weight (pathBytes path) + (1 + weight (utf8 cs)) := by
  have hwalk := weight_walk path (((readKey cs).splitOnP isSlash).map encode)
  have hsplit := weight_split (readKey cs)
  have hread := (weight_readKey cs).1
  omega

/-- **Where the sent path decodes to the signed one, every part of it was kept.** The weight that
a browser takes from the path would be missing otherwise. -/
theorem kept_of_bytes {path : List Text} {cs : Text} (hbyte : ∀ c ∈ cs, c.toNat < 256)
    (hpath : ∀ c ∈ join path, c.toNat < 256)
    (h : latin (join path) ++ 47 :: latin cs =
      pathBytes (walk path (((readKey cs).splitOnP isSlash).map encode))) :
    hasGroup (join path) = false ∧ KeyKept cs := by
  have hslash : byteWeight 47 = 1 := rfl
  have hweight := congrArg weight h
  rw [weight_append, weight_cons, weight_latin hbyte, weight_latin hpath, hslash] at hweight
  have hwalk := weight_walk path (((readKey cs).splitOnP isSlash).map encode)
  have hjoin := weight_percentDecode (join path)
  rw [percentDecode_join] at hjoin
  have hsplit := weight_split (readKey cs)
  obtain ⟨hle, hread⟩ := weight_readKey cs
  obtain ⟨hsame, hunblank, hplain⟩ := hread (by omega)
  rw [hsame] at h hwalk hsplit hweight
  have hgroup : hasGroup (join path) = false := by
    cases hgroup : hasGroup (join path) with
    | false => rfl
    | true => rw [hgroup, if_pos rfl] at hjoin; omega
  have hback : '\\' ∉ cs := by
    intro hmem
    rw [if_pos hmem] at hsplit
    omega
  rw [slashed_eq hback] at hsplit
  have hungrouped : hasGroup cs = false := by
    cases hgroup : hasGroup cs with
    | false => rfl
    | true => rw [hgroup, if_pos rfl] at hsplit; omega
  have hdots : ((cs.splitOnP isSlash).map encode).any isDot = false := by
    cases hdots : ((cs.splitOnP isSlash).map encode).any isDot with
    | false => rfl
    | true => rw [hdots, if_pos rfl] at hwalk; omega
  rw [List.any_eq_false] at hdots
  have hundotted : ∀ s ∈ (cs.splitOnP isSlash).map encode, isDot s = false :=
    fun s hs => by simpa using hdots s hs
  -- nothing was lost: what is left to see is that a character beyond ASCII has more bytes
  rw [walk_undotted hundotted, pathBytes_append, ← percentDecode_join,
    percentDecode_of_ungrouped hgroup, pathBytes_encode, pathBytes_split, slashed_eq hback,
    percentDecode_of_ungrouped hungrouped] at h
  have hlen := congrArg List.length h
  have hle₁ := length_le_textEncode (join path)
  have hle₂ := length_le_textEncode cs
  rw [List.length_append, List.length_append, List.length_cons, List.length_cons] at hlen
  unfold latin at hlen
  rw [List.length_map, List.length_map] at hlen
  refine ⟨hgroup, ascii_of_length (by omega), fun c hc => ⟨(hplain c hc).1, (hplain c hc).2, ?_⟩,
    hunblank, fun s hs => ⟨?_, ?_⟩, hungrouped⟩
  · rintro rfl
    exact hback hc
  · rintro rfl
    have := hundotted _ (List.mem_map_of_mem (f := encode) hs)
    rw [encode_dots.1] at this
    cases this
  · rintro rfl
    have := hundotted _ (List.mem_map_of_mem (f := encode) hs)
    rw [encode_dots.2] at this
    cases this

/-! ## The two URLs -/

theorem parseS3Url_ok {url bucket path : Text} (h : parseS3Url url = .ok (bucket, path)) :
    bucket ≠ [] ∧ '/' ∉ bucket ∧ ∃ key, path = '/' :: key := by
  unfold parseS3Url at h
  dsimp only at h
  split at h
  next => cases h
  next =>
    split at h
    next => cases h
    next =>
      split at h
      next => cases h
      next hbucket =>
        split at h
        next => cases h
        next hpath =>
          simp only [Except.ok.injEq, Prod.mk.injEq] at h
          obtain ⟨rfl, rfl⟩ := h
          refine ⟨hbucket, fun hmem => ?_, ?_⟩
          · have := List.mem_takeWhile_imp hmem
            exact absurd this (by decide)
          · obtain ⟨c, key, hcons⟩ := List.exists_cons_of_ne_nil hpath
            have hc := List.head_dropWhile_not (· != '/') hpath
            simp only [hcons, List.head_cons, bne_eq_false_iff_eq] at hc
            exact ⟨key, by rw [hcons, hc]⟩

theorem newUrl_eq_some {hosts : HostParser} {cs : Text} {u : Url} :
    newUrl hosts cs = some u ↔
      ∃ p, parts cs = some p ∧ hosts.parse p.scheme p.authority = some u.host ∧
        u.pathname = pathname p.path := by
  unfold newUrl
  simp only [Option.bind_eq_bind, Option.bind_eq_some_iff, Option.pure_def, Option.some.injEq]
  constructor
  · rintro ⟨p, hp, host, hhost, rfl⟩
    exact ⟨p, hp, hhost, rfl⟩
  · rintro ⟨p, hp, hhost, hpath⟩
    exact ⟨p, hp, u.host, hhost, by rw [← hpath]⟩

theorem urlOf_ok {hosts : HostParser} {cs : Text} {u : Url} :
    urlOf hosts cs = .ok u ↔ newUrl hosts cs = some u := by
  unfold urlOf
  cases newUrl hosts cs <;> simp

/-- What `getS3Params` signs, when it does not throw. -/
theorem getS3Params_ok {hosts : HostParser} {config : Option S3Config}
    {url method date datetime : Text} {params : S3Params}
    (h : getS3Params hosts config url method date datetime = .ok params) :
    ∃ bucket path, parseS3Url url = .ok (bucket, path) ∧
      if isPathStyleAccess config then
        ∃ e, newUrl hosts (endpointOf config) = some e ∧ params.host = e.host ∧
          params.url = endpointPath e ++ '/' :: (bucket ++ path)
      else params.host = bucketHost config bucket ∧ params.url = path := by
  unfold getS3Params at h
  cases hparse : parseS3Url url with
  | error => rw [hparse] at h; cases h
  | ok p =>
    obtain ⟨bucket, path⟩ := p
    refine ⟨bucket, path, rfl, ?_⟩
    rw [hparse] at h
    cases hstyle : isPathStyleAccess config with
    | true =>
      have hhttp : startsWithHttp (endpointOf config) = true := hstyle
      rw [if_pos rfl]
      cases hurl : urlOf hosts (endpointOf config) with
      | error =>
        simp only [signedUrl, hstyle, hurl, if_true, bind, Except.bind] at h
        cases h
      | ok e =>
        simp only [signedUrl, getHTTPHost, hstyle, hhttp, hurl, if_true, bind, Except.bind, pure,
          Except.pure, Except.ok.injEq] at h
        refine ⟨e, urlOf_ok.mp hurl, ?_, ?_⟩
        · rw [← h]
        · rw [← h]
          exact List.append_assoc _ ('/' :: bucket) path
    | false =>
      have hhttp : startsWithHttp (endpointOf config) = false := hstyle
      simp only [signedUrl, getHTTPHost, hstyle, hhttp, Bool.false_eq_true, if_false, bind,
        Except.bind, pure, Except.pure, Except.ok.injEq] at h
      rw [if_neg (by simp), ← h]
      exact ⟨rfl, rfl⟩

theorem getHTTPUrl_ok {config : Option S3Config} {url bucket path request : Text}
    (hparse : parseS3Url url = .ok (bucket, path)) (h : getHTTPUrl config url = .ok request) :
    request =
      if isPathStyleAccess config then endpointOf config ++ '/' :: (bucket ++ path)
      else "https://".toList ++ bucketHost config bucket ++ path := by
  unfold getHTTPUrl at h
  rw [hparse] at h
  cases hstyle : isPathStyleAccess config with
  | true =>
    rw [hstyle] at h
    obtain rfl := Except.ok.inj h
    exact List.append_assoc _ ('/' :: bucket) path
  | false =>
    rw [hstyle] at h
    obtain rfl := Except.ok.inj h
    rfl

/-! ## The path of the endpoint -/

theorem join_eq_slash {path : List Text} (h : join path = ['/']) : path = [[]] := by
  unfold join at h
  cases path with
  | nil => cases h
  | cons s path =>
    rw [List.flatMap_cons, List.cons_append, List.cons.injEq, List.append_eq_nil_iff] at h
    obtain ⟨-, rfl, hrest⟩ := h
    cases path with
    | nil => rfl
    | cons t path => cases hrest

/-- What is signed of the path of an endpoint, and what a browser keeps of it. -/
theorem endpointPath_cases (host path : Text) :
    (path = [] ∨ (endsInDot path = true ↔ pathname path = ['/'])) ∧
        endpointPath ⟨host, pathname path⟩ = join (kept path) ∨
      ¬ (path = [] ∨ (endsInDot path = true ↔ pathname path = ['/'])) ∧
        (endpointPath ⟨host, pathname path⟩ = join (kept path) ++ ['/'] ∨
          endpointPath ⟨host, pathname path⟩ = [] ∧ kept path = [[]]) := by
  unfold endpointPath
  dsimp only
  cases path with
  | nil => exact Or.inl ⟨Or.inl rfl, rfl⟩
  | cons c cs =>
    have hpath := pathname_cons c cs
    have hcons : ¬ c :: cs = [] := List.cons_ne_nil c cs
    cases hdot : endsInDot (c :: cs) with
    | true =>
      rw [hdot, if_pos rfl] at hpath
      by_cases hslash : pathname (c :: cs) = ['/']
      · have hnil : join (kept (c :: cs)) = [] := by
          have hlen := congrArg List.length (hpath.symm.trans hslash)
          rw [List.length_append] at hlen
          simpa using hlen
        rw [if_neg (by simp [hslash]), hnil]
        exact Or.inl ⟨Or.inr ⟨fun _ => hslash, fun _ => rfl⟩, rfl⟩
      · rw [if_pos hslash]
        refine Or.inr ⟨fun h => ?_, Or.inl hpath⟩
        exact hslash ((h.resolve_left hcons).mp rfl)
    | false =>
      rw [hdot, if_neg (by simp), List.append_nil] at hpath
      by_cases hslash : pathname (c :: cs) = ['/']
      · rw [if_neg (by simp [hslash])]
        refine Or.inr ⟨fun h => ?_, Or.inr ⟨rfl, join_eq_slash (hpath.symm.trans hslash)⟩⟩
        cases (h.resolve_left hcons).mpr hslash
      · rw [if_pos hslash, hpath]
        refine Or.inl ⟨Or.inr ⟨fun h => ?_, fun h => ?_⟩, rfl⟩
        · cases h
        · exact absurd (hpath.trans h) hslash

theorem endpoint_starts {endpoint : Text} (h : startsWithHttp endpoint = true) :
    ∃ c rest, endpoint = c :: rest ∧ isBlank c = false := by
  unfold startsWithHttp at h
  obtain ⟨rest, hrest⟩ := List.isPrefixOf_iff_prefix.mp h
  exact ⟨'h', "ttp".toList ++ rest, hrest.symm, rfl⟩

/-- The URL that a request in path style goes to, for an endpoint without blanks at its end. -/
theorem newUrl_endpoint {hosts : HostParser} {endpoint : Text} {e u : Url}
    (hend : Unpadded endpoint) (he : newUrl hosts endpoint = some e) {rest : Text}
    (hu : newUrl hosts (endpoint ++ '/' :: rest) = some u) :
    ∃ p, parts endpoint = some p ∧ e = ⟨e.host, pathname p.path⟩ ∧ u.host = e.host ∧
      ((∀ c ∈ endpoint, isQuery c = false) → percentDecode u.pathname =
        pathBytes (walk (kept p.path) (((readKey rest).splitOnP isSlash).map encode))) ∧
      (¬ (∀ c ∈ endpoint, isQuery c = false) → u.pathname = e.pathname) := by
  obtain ⟨p, hparts, hhost, hpath⟩ := newUrl_eq_some.mp he
  have hauthority : p.authority ≠ [] := by
    intro hnil
    rw [hnil, hosts.nonempty] at hhost
    cases hhost
  obtain ⟨t, ht, hquery, hsent⟩ := parts_append hend hparts hauthority rest
  obtain ⟨q, hq, huhost, hupath⟩ := newUrl_eq_some.mp hu
  obtain rfl := Option.some.inj (hsent.symm.trans hq)
  have hsame : u.host = e.host := Option.some.inj (huhost.symm.trans hhost)
  refine ⟨p, hparts, by rw [← hpath], hsame, fun hno => ?_, fun hsome => ?_⟩
  · have hall : ∀ c ∈ t, (!isQuery c) = true := fun c hc => by simp [hquery.mpr hno c hc]
    rw [List.takeWhile_eq_self_iff.mpr hall] at ht
    dsimp only at hupath
    rw [List.takeWhile_append_of_pos hall, List.takeWhile_cons_of_pos rfl] at hupath
    rw [hupath, ← ht, pathname_append, percentDecode_join]
    rfl
  · have hcut : (t ++ '/' :: tidyEnd rest).takeWhile (!isQuery ·) = t.takeWhile (!isQuery ·) := by
      rw [List.takeWhile_append, if_neg]
      intro hlen
      refine hsome (hquery.mp fun c hc => ?_)
      have hall := List.takeWhile_eq_self_iff.mp ((List.takeWhile_prefix _).eq_of_length hlen)
      simpa using hall c hc
    dsimp only at hupath
    rw [hupath, hcut, ← ht, hpath]

/-! ## A parser of hosts -/

def isNameChar (c : Char) : Bool := c.isLower || c.isDigit || c == '.' || c == '-' || c == ':'

def defaultPort : Scheme → Text
  | .http => ":80".toList
  | .https => ":443".toList

theorem isNameChar_plain {c : Char} (h : isNameChar c = true) :
    isBlank c = false ∧ isEnd c = false := by
  constructor
  · have hsmall : ∀ n < 33, isNameChar (Char.ofNat n) = false := by decide
    cases hblank : isBlank c with
    | false => rfl
    | true =>
      unfold isBlank at hblank
      rw [decide_eq_true_eq] at hblank
      have hnone := hsmall c.toNat (by omega)
      rw [Char.ofNat_toNat, h] at hnone
      cases hnone
  · cases hend : isEnd c with
    | false => rfl
    | true =>
      unfold isEnd isSlash isQuery at hend
      simp only [Bool.or_eq_true, beq_iff_eq] at hend
      obtain (rfl | rfl) | rfl | rfl := hend <;> exact absurd h (by decide)

/-- A parser for names of small letters, digits, dots and hyphens, with a port that is not the
default one: they are sent as they are. -/
def plainHosts : HostParser where
  parse scheme authority :=
    if authority ≠ [] ∧ authority.all isNameChar ∧
        (defaultPort scheme).isSuffixOf authority = false then some authority else none
  nonempty _ := if_neg fun h => h.1 rfl
  plain := by
    intro s a h hparse c hc
    split at hparse
    next hall =>
      obtain rfl := Option.some.inj hparse
      exact isNameChar_plain (List.all_eq_true.mp hall.2.1 c hc)
    next => cases hparse

/-! ## What is signed and what is sent -/

/-- An endpoint that ends in no blank, when its tabs and line ends are gone. -/
def Unblank (endpoint : Text) : Prop :=
  (dropNewlines endpoint).rdropWhile isBlank = dropNewlines endpoint

theorem virtual_host {hosts : HostParser} {host key : Text} {params : S3Params} {sent : Url}
    (hne : host ≠ []) (hhost : params.host = host) (hurl : params.url = '/' :: key)
    (hsent : newUrl hosts ("https://".toList ++ host ++ '/' :: key) = some sent) :
    Agrees params sent ↔ hosts.parse .https host = some host ∧ KeyKept key := by
  -- where the host is the signed one, nothing in it ends the authority
  have hread : (∀ c ∈ host, isBlank c = false ∧ isEnd c = false) →
      hosts.parse .https host = some sent.host ∧ percentDecode sent.pathname =
        pathBytes (walk [] (((readKey key).splitOnP isSlash).map encode)) := by
    intro hplain
    obtain ⟨p, hp, hparse, hpath⟩ := newUrl_eq_some.mp hsent
    obtain rfl := Option.some.inj ((parts_https hne hplain key).symm.trans hp)
    refine ⟨hparse, ?_⟩
    have happend := pathname_append [] (readKey key)
    rw [List.nil_append] at happend
    rw [hpath]
    dsimp only
    show percentDecode (pathname ('/' :: readKey key)) = _
    rw [happend, percentDecode_join]
    rfl
  constructor
  · rintro ⟨hsame, hpath⟩
    rw [hhost] at hsame
    obtain ⟨p, -, hparse, -⟩ := newUrl_eq_some.mp hsent
    rw [← hsame] at hparse
    obtain ⟨hparse, hbytes⟩ := hread (hosts.plain hparse)
    rw [← hsame] at hparse
    obtain ⟨hchars, hlatin⟩ := canonicalPath_eq_sentPath.mp hpath
    rw [hurl] at hchars hlatin
    rw [hbytes] at hlatin
    have hkept := @kept_of_bytes [] key (fun c hc => hchars c (List.mem_cons_of_mem _ hc))
      (fun c hc => by cases hc) hlatin
    exact ⟨hparse, hkept.2⟩
  · rintro ⟨hparse, hkept⟩
    obtain ⟨hparse', hbytes⟩ := hread (hosts.plain hparse)
    refine ⟨?_, canonicalPath_eq_sentPath.mpr ⟨?_, ?_⟩⟩
    · rw [hhost]
      exact Option.some.inj (hparse.symm.trans hparse')
    · rw [hurl]
      intro c hc
      obtain rfl | hc := List.mem_cons.mp hc
      · decide
      · have := hkept.ascii c hc
        omega
    · rw [hurl, hbytes, hkept.pathBytes_walk]
      rfl

theorem weight_slash : weight (utf8 ['/']) = 1 := rfl

/-- A path that the endpoint does not pass on agrees with nothing that is signed. -/
theorem not_kept {host path rest : Text}
    (hne : ∃ c cs, rest = c :: cs ∧ c ≠ '/')
    (hmiss : endpointPath ⟨host, pathname path⟩ = join (kept path) ++ ['/'] ∨
      endpointPath ⟨host, pathname path⟩ = [] ∧ kept path = [[]])
    (hchars : ∀ c ∈ endpointPath ⟨host, pathname path⟩ ++ '/' :: rest, c.toNat < 256)
    (h : latin (endpointPath ⟨host, pathname path⟩ ++ '/' :: rest) =
      pathBytes (walk (kept path) (((readKey rest).splitOnP isSlash).map encode))) : False := by
  have hweight := congrArg weight h
  rw [weight_latin hchars, utf8_append, weight_append, utf8_cons, utf8_slash,
    weight_append] at hweight
  have hslash : weight [47] = 1 := rfl
  have hsent := weight_sent (kept path) rest
  have hjoin := weight_percentDecode (join (kept path))
  rw [percentDecode_join] at hjoin
  rw [hslash] at hweight
  obtain hmore | ⟨hless, hkept⟩ := hmiss
  · -- a slash more is signed
    rw [hmore, utf8_append, weight_append, weight_slash] at hweight
    omega
  · -- a slash less is signed: the one that is sent is still there, for nothing is lost
    have hone : weight (pathBytes (kept path)) = 1 := by rw [hkept]; rfl
    have hzero : weight (utf8 ([] : Text)) = 0 := rfl
    rw [hless, hzero] at hweight
    rw [hone] at hsent
    have hdots : (((readKey rest).splitOnP isSlash).map encode).any isDot = false := by
      cases hdots : (((readKey rest).splitOnP isSlash).map encode).any isDot with
      | false => rfl
      | true => rw [hdots, if_pos rfl] at hsent; omega
    rw [List.any_eq_false] at hdots
    rw [hless, hkept, walk_undotted fun s hs => by simpa using hdots s hs, pathBytes_append,
      pathBytes_encode, pathBytes_split] at h
    obtain ⟨c, cs, rfl, hc⟩ := hne
    rw [hless] at hchars
    have hlt := hchars c (by simp)
    have hbyte : UInt8.ofNat c.toNat = 47 := (List.cons.inj (List.cons.inj h).2).1
    have hnat := congrArg UInt8.toNat hbyte
    rw [UInt8.toNat_ofNat', Nat.mod_eq_of_lt (by omega)] at hnat
    exact hc (Char.toNat_inj.mp hnat)

theorem hasGroup_pathname {host path : Text}
    (h : hasGroup (endpointPath ⟨host, pathname path⟩) = false) :
    hasGroup (pathname path) = false := by
  unfold endpointPath at h
  dsimp only at h
  split at h
  next => exact h
  next hslash =>
    rw [Decidable.not_not] at hslash
    rw [hslash]
    rfl

theorem path_style {hosts : HostParser} {endpoint bucket key : Text} {e sent : Url}
    {params : S3Params} (hhttp : startsWithHttp endpoint = true) (hunblank : Unblank endpoint)
    (hbucket : bucket ≠ []) (hslash : '/' ∉ bucket) (he : newUrl hosts endpoint = some e)
    (hhost : params.host = e.host)
    (hurl : params.url = endpointPath e ++ '/' :: (bucket ++ '/' :: key))
    (hsent : newUrl hosts (endpoint ++ '/' :: (bucket ++ '/' :: key)) = some sent) :
    Agrees params sent ↔ EndpointKept endpoint ∧ KeyKept (bucket ++ '/' :: key) := by
  obtain ⟨p, hparts, hpathname, hsame, hread, hcut⟩ :=
    newUrl_endpoint ⟨endpoint_starts hhttp, hunblank⟩ he hsent
  rw [hpathname] at hurl
  constructor
  · rintro ⟨-, hpath⟩
    obtain ⟨hchars, hlatin⟩ := canonicalPath_eq_sentPath.mp hpath
    rw [hurl] at hchars hlatin
    by_cases hquery : ∀ c ∈ endpoint, isQuery c = false
    · rw [hread hquery] at hlatin
      obtain ⟨hcond, hep⟩ | ⟨-, hmiss⟩ := endpointPath_cases e.host p.path
      · rw [hep] at hchars hlatin
        rw [latin_append] at hlatin
        obtain ⟨hgroup, hkey⟩ := kept_of_bytes
          (fun c hc => hchars c (List.mem_append_right _ (List.mem_cons_of_mem _ hc)))
          (fun c hc => hchars c (List.mem_append_left _ hc)) hlatin
        rw [← hep] at hgroup
        refine ⟨⟨hquery, hunblank, fun q hq => ?_⟩, hkey⟩
        obtain rfl := Option.some.inj (hparts.symm.trans hq)
        exact ⟨hcond, hasGroup_pathname hgroup⟩
      · obtain ⟨c, tail, rfl⟩ := List.exists_cons_of_ne_nil hbucket
        have hc : c ≠ '/' := by
          rintro rfl
          exact hslash List.mem_cons_self
        exact (not_kept ⟨c, tail ++ '/' :: key, rfl, hc⟩ hmiss hchars hlatin).elim
    · -- the bucket and the key are part of the query
      have hle := weight_percentDecode e.pathname
      have hweight := congrArg weight hlatin
      have hone : weight [47] = 1 := rfl
      rw [hcut hquery, weight_latin hchars, utf8_append, weight_append, utf8_cons, utf8_slash,
        weight_append, utf8_append, weight_append, utf8_cons, utf8_slash, weight_append,
        hone] at hweight
      have hep : weight (utf8 e.pathname) ≤ weight (utf8 (endpointPath e)) + 1 := by
        unfold endpointPath
        split
        next => omega
        next hroot =>
          rw [Decidable.not_not] at hroot
          rw [hroot, weight_slash]
          omega
      rw [← hpathname] at hweight
      omega
  · rintro ⟨hendpoint, hkey⟩
    obtain ⟨hcond, hgroup⟩ := hendpoint.path p hparts
    obtain ⟨-, hep⟩ | ⟨hmiss, -⟩ := endpointPath_cases e.host p.path
    · have hascii := kept_ascii p.path
      have hungrouped : hasGroup (join (kept p.path)) = false := by
        rw [← hep]
        unfold endpointPath
        dsimp only
        split
        next => exact hgroup
        next => rfl
      refine ⟨by rw [hhost, hsame], canonicalPath_eq_sentPath.mpr ⟨?_, ?_⟩⟩
      · rw [hurl, hep]
        intro c hc
        obtain hc | hc := List.mem_append.mp hc
        · have := hascii c hc
          omega
        · obtain rfl | hc := List.mem_cons.mp hc
          · decide
          · have := hkey.ascii c hc
            omega
      · rw [hurl, hep, hread hendpoint.noQuery, hkey.pathBytes_walk, latin_append,
          ← percentDecode_join, percentDecode_of_ungrouped hungrouped, ← utf8_of_ascii hascii]
        rfl
    · exact absurd hcond hmiss

/-- **What is signed is what is sent as long as a browser changes nothing of the host, the path of
the endpoint and the key**, and no longer. An endpoint with a blank at its end is changed, so that
it makes no promise; what is sent may still be what is signed there, by chance. -/
theorem signed_is_sent {hosts : HostParser} {config : Option S3Config}
    {url method date datetime bucket path request : Text} {params : S3Params} {sent : Url}
    (hparse : parseS3Url url = .ok (bucket, path))
    (hsigned : getS3Params hosts config url method date datetime = .ok params)
    (hrequest : getHTTPUrl config url = .ok request) (hsent : newUrl hosts request = some sent) :
    (SentAsSigned hosts config bucket path → Agrees params sent) ∧
      ((isPathStyleAccess config = true → Unblank (endpointOf config)) →
        Agrees params sent → SentAsSigned hosts config bucket path) := by
  obtain ⟨bucket', path', hparse', hparams⟩ := getS3Params_ok hsigned
  obtain ⟨rfl, rfl⟩ := Prod.mk.inj (Except.ok.inj (hparse.symm.trans hparse'))
  obtain ⟨hbucket, hslash, key, rfl⟩ := parseS3Url_ok hparse
  have hrequest := getHTTPUrl_ok hparse hrequest
  unfold SentAsSigned
  cases hstyle : isPathStyleAccess config with
  | true =>
    rw [hstyle, if_pos rfl] at hparams hrequest
    obtain ⟨e, he, hhost, hurl⟩ := hparams
    rw [hrequest] at hsent
    rw [if_pos rfl]
    constructor
    · intro h
      exact (path_style hstyle h.1.unblank hbucket hslash he hhost hurl hsent).mpr h
    · intro hunblank hagrees
      exact (path_style hstyle (hunblank rfl) hbucket hslash he hhost hurl hsent).mp hagrees
  | false =>
    rw [hstyle, if_neg (by simp)] at hparams hrequest
    rw [hrequest] at hsent
    rw [if_neg (by simp)]
    have hne : bucketHost config bucket ≠ [] := by
      unfold bucketHost
      split <;> simp
    have hiff := virtual_host hne hparams.1 hparams.2 hsent
    exact ⟨hiff.mpr, fun _ => hiff.mp⟩

def minio (endpoint : String) : Option S3Config := some { endpoint := endpoint.toList }

def paramsOf (endpoint : String) (url : String) : S3Params :=
  match getS3Params plainHosts (minio endpoint) url.toList "GET".toList [] [] with
  | .ok params => params
  | .error _ => ⟨[], [], [], [], [], [], [], [], [], [], []⟩

/-- What is signed for `https://host:9000` is what is sent. -/
theorem signed_is_sent_minio :
    Agrees (paramsOf "https://host:9000" "s3://bucket/key")
      ⟨"host:9000".toList, "/bucket/key".toList⟩ := by
  refine (@signed_is_sent plainHosts (minio "https://host:9000") "s3://bucket/key".toList
    "GET".toList [] [] "bucket".toList "/key".toList "https://host:9000/bucket/key".toList _ _
    rfl rfl rfl rfl).1 ?_
  have hquery := List.all_eq_true.mp
    (show "https://host:9000".toList.all (!isQuery ·) = true from rfl)
  have hkey := List.all_eq_true.mp (show ("bucket".toList ++ "/key".toList).all (fun c =>
    c.toNat < 128 && !isNewline c && !isQuery c && c != '\\') = true from rfl)
  simp only [Bool.and_eq_true, decide_eq_true_eq, Bool.not_eq_true', bne_iff_ne] at hquery hkey
  refine ⟨⟨hquery, rfl, fun p hp => ?_⟩, fun c hc => (hkey c hc).1.1.1,
    fun c hc => ⟨(hkey c hc).1.1.2, (hkey c hc).1.2, (hkey c hc).2⟩, rfl, by decide, rfl⟩
  obtain rfl := Option.some.inj ((show parts "https://host:9000".toList =
    some ⟨.https, "host:9000".toList, []⟩ from rfl).symm.trans hp)
  exact ⟨Or.inl rfl, rfl⟩

/-- An endpoint with a slash at its end: one slash is signed, and two are sent. -/
theorem trailing_slash_is_not_signed :
    ¬ ∀ (config : Option S3Config) (url method date datetime request : Text) (params : S3Params)
        (sent : Url), getS3Params plainHosts config url method date datetime = .ok params →
      getHTTPUrl config url = .ok request → newUrl plainHosts request = some sent →
        Agrees params sent := by
  intro h
  have hpath := (h (minio "https://host:9000/") "s3://bucket/key".toList "GET".toList [] []
    "https://host:9000//bucket/key".toList (paramsOf "https://host:9000/" "s3://bucket/key")
    ⟨"host:9000".toList, "//bucket/key".toList⟩ rfl rfl rfl).path
  exact absurd hpath (by decide +kernel)

/-- By chance: with the blank the endpoint is another path, which decodes to what is signed. -/
example : (newUrl plainHosts "https://h/a%2F..%2F../.. /a/../../x".toList).map (·.pathname) =
      some "/a%2F..%2F../x".toList ∧
    canonicalPath (paramsOf "https://h/a%2F..%2F../.. " "s3://a/../../x") =
      sentPath "/a%2F..%2F../x".toList := by
  decide +kernel

end Haybarn.S3
