import Haybarn.Lib.JsMap
import Haybarn.Lib.Run

/-!
# Prefetched extensions

`extension_prefetch.ts` downloads extensions ahead of the `LOAD` that needs them. What has been
downloaded is held by URL until a `LOAD` takes it, up to a limit; what is still being downloaded
is in `running`. The dispatcher clears everything when the database is opened anew, and bumps
`generation`, so that downloads still under way are dropped when they end.

Mirroring notes:

* the module's variables are the fields of `Prefetch`, and one event is what runs in one go. A
  turn of the loop in `prefetchExtensions` is an event of its own; the loop does not await between
  its turns, so its runs are among those where the turns follow each other;
* `prefetchOne` runs up to its first `await` within the turn that calls it. If it throws there
  (`AbortSignal.timeout` may), its `finally` has been run before `running` gets its entry;
* its awaits are left out, with what they read: a download ends with the bytes, their hash and
  the module, or it fails (any status but 200, a network error, the timeout), at any time and in
  any order;
* `fetch` in an entry and `taken` are a record. No function reads them.

`accounting` is the result about every run.
-/

namespace Haybarn.Worker.ExtensionPrefetch

open Haybarn.Lib

abbrev Url := String

/-- The most bytes held for `LOAD`s that have not taken them. -/
def MAX_HELD_BYTES : Nat := 256 * 1024 * 1024

/-- A call of `prefetchOne`. -/
structure Fetch where
  id : Nat
  url : Url
  startedIn : Nat
  deriving DecidableEq, Repr

/-- What a download ends with. -/
structure Download where
  bytes : List UInt8
  hash : Option (List UInt8)
  /-- The number of a compiled module. -/
  module : Option Nat
  deriving DecidableEq, Repr

structure PrefetchedExtension extends Download where
  /-- The call that has fetched it. -/
  fetch : Fetch
  deriving DecidableEq, Repr

def PrefetchedExtension.byteLength (entry : PrefetchedExtension) : Nat := entry.bytes.length

/-- What `takePrefetchedExtension` has handed out, and in which generation. -/
structure Take where
  url : Url
  entry : PrefetchedExtension
  generation : Nat
  deriving DecidableEq, Repr

structure Prefetch where
  prefetched : JsMap Url PrefetchedExtension
  running : JsMap Url Nat
  /-- A number of JavaScript, which could go below zero. -/
  heldBytes : Int
  generation : Nat
  /-- The calls of `prefetchOne` that have not ended. -/
  live : List Fetch
  /-- How many calls of `prefetchOne` there have been. -/
  fetches : Nat
  taken : List Take
  deriving DecidableEq, Repr

namespace Prefetch

def initial : Prefetch := ⟨[], [], 0, 0, [], 0, []⟩

/-- A turn of the loop in `prefetchExtensions`; `throws` says that `prefetchOne` throws before its
first `await`. -/
def prefetch (s : Prefetch) (url : Url) (throws : Bool) : Prefetch :=
  if (s.prefetched.get url).isSome then s
  else if (s.running.get url).isSome then s
  else
    let call : Fetch := ⟨s.fetches, url, s.generation⟩
    { s with
      running := s.running.set url call.id
      fetches := s.fetches + 1
      live := if throws then s.live else call :: s.live }

/-- The `finally` of `prefetchOne`. -/
def ended (s : Prefetch) (call : Fetch) : Prefetch :=
  { s with running := s.running.delete call.url, live := s.live.erase call }

/-- `prefetchOne`, from the end of its last `await`. -/
def fetched (s : Prefetch) (call : Fetch) (d : Download) : Prefetch :=
  if s.generation ≠ call.startedIn ∨ s.heldBytes + d.bytes.length > MAX_HELD_BYTES then
    s.ended call
  else
    { s with
      prefetched := s.prefetched.set call.url { d with fetch := call }
      heldBytes := s.heldBytes + d.bytes.length }.ended call

def takePrefetchedExtension (s : Prefetch) (url : Url) : Prefetch :=
  match s.prefetched.get url with
  | none => s
  | some entry =>
    { s with
      prefetched := s.prefetched.delete url
      heldBytes := s.heldBytes - entry.byteLength
      taken := ⟨url, entry, s.generation⟩ :: s.taken }

def clearPrefetchedExtensions (s : Prefetch) : Prefetch :=
  { s with prefetched := [], heldBytes := 0, generation := s.generation + 1 }

end Prefetch

inductive Event
  | prefetch (url : Url) (throws : Bool)
  /-- The download of a call has ended well. -/
  | fetched (call : Fetch) (d : Download)
  /-- It has failed. -/
  | failed (call : Fetch)
  | take (url : Url)
  | clear
  deriving DecidableEq, Repr

def step (s : Prefetch) : Event → Option Prefetch
  | .prefetch url throws => some (s.prefetch url throws)
  | .fetched call d => if call ∈ s.live then some (s.fetched call d) else none
  | .failed call => if call ∈ s.live then some (s.ended call) else none
  | .take url => some (s.takePrefetchedExtension url)
  | .clear => some s.clearPrefetchedExtensions

/-- The total size of the entries. -/
def totalBytes (m : JsMap Url PrefetchedExtension) : Nat := (m.map (·.2.byteLength)).sum

/-! ## The invariant -/

/-- What holds between the maps, the calls under way and the record. -/
structure Inv (s : Prefetch) : Prop where
  /-- The count is the total. -/
  held : s.heldBytes = totalBytes s.prefetched
  limit : totalBytes s.prefetched ≤ MAX_HELD_BYTES
  keys : (s.prefetched.map Prod.fst).Nodup
  /-- A call that has not ended has the entry of its URL in `running`. -/
  running : ∀ call ∈ s.live, s.running.get call.url = some call.id
  /-- A call of this generation is for a URL that is not held. -/
  wanted : ∀ call ∈ s.live, call.startedIn = s.generation → s.prefetched.get call.url = none
  /-- What is held was fetched in this generation. -/
  current : ∀ e ∈ s.prefetched, e.2.fetch.startedIn = s.generation
  /-- What has been taken was taken in the generation in which it was fetched. -/
  taken : ∀ t ∈ s.taken, t.entry.fetch.startedIn = t.generation
  /-- Calls have numbers of their own: those under way, those whose entry is held and those whose
  entry has been taken. -/
  once : (s.live.map Fetch.id ++ s.prefetched.map (·.2.fetch.id) ++
    s.taken.map (·.entry.fetch.id)).Nodup
  fresh : ∀ id ∈ s.live.map Fetch.id ++ s.prefetched.map (·.2.fetch.id) ++
    s.taken.map (·.entry.fetch.id), id < s.fetches

variable {s s' : Prefetch} {call : Fetch} {d : Download} {url : Url}

theorem initial_inv : Inv .initial where
  held := rfl
  limit := Nat.zero_le _
  keys := List.nodup_nil
  running := by simp [Prefetch.initial]
  wanted := by simp [Prefetch.initial]
  current := by simp [Prefetch.initial]
  taken := by simp [Prefetch.initial]
  once := List.nodup_nil
  fresh := by simp [Prefetch.initial]

namespace Inv

/-- Two calls under way are for two URLs. -/
theorem url_injective (h : Inv s) {c : Fetch} (hcall : call ∈ s.live) (hc : c ∈ s.live)
    (hurl : c.url = call.url) : c = call := by
  have hid : c.id = call.id := by
    have h1 := h.running c hc
    rw [hurl, h.running call hcall] at h1
    exact (Option.some.inj h1).symm
  have hn : (s.live.map Fetch.id).Nodup := h.once.of_append_left.of_append_left
  exact List.inj_on_of_nodup_map hn hc hcall hid

/-- A turn of the loop keeps the invariant: a new call has a new number. -/
theorem of_prefetch (h : Inv s) (throws : Bool) : Inv (s.prefetch url throws) := by
  unfold Prefetch.prefetch
  split
  · exact h
  · rename_i hheld
    split
    · exact h
    · rename_i hrun
      have hfree : s.prefetched.get url = none := by simpa using hheld
      have hnone : s.running.get url = none := by simpa using hrun
      have hrunning : ∀ c ∈ s.live, (s.running.set url s.fetches).get c.url = some c.id := by
        intro c hc
        have hne : c.url ≠ url := by
          intro heq
          have := h.running c hc
          rw [heq, hnone] at this
          cases this
        rw [JsMap.get_set, if_neg hne, h.running c hc]
      cases throws with
      | true =>
        exact { h with
          running := hrunning
          fresh := fun id hid => Nat.lt_succ_of_lt (h.fresh id hid) }
      | false =>
        refine { h with running := ?_, wanted := ?_, once := ?_, fresh := ?_ }
        · intro c hc
          rcases List.mem_cons.mp hc with rfl | hc
          · rw [JsMap.get_set, if_pos rfl]
          · exact hrunning c hc
        · intro c hc hgen
          rcases List.mem_cons.mp hc with rfl | hc
          · exact hfree
          · exact h.wanted c hc hgen
        · exact List.nodup_cons.mpr ⟨fun hmem => Nat.lt_irrefl _ (h.fresh _ hmem), h.once⟩
        · intro id hid
          rcases List.mem_cons.mp hid with rfl | hid
          · exact Nat.lt_succ_self _
          · exact Nat.lt_succ_of_lt (h.fresh id hid)

theorem live_nodup (h : Inv s) : s.live.Nodup := (h.once.of_append_left.of_append_left).of_map _

/-- The other calls keep their entries in `running`. -/
theorem running_ended (h : Inv s) (hcall : call ∈ s.live) :
    ∀ c ∈ s.live.erase call, c.url ≠ call.url ∧
      (s.running.delete call.url).get c.url = some c.id := by
  intro c hc
  obtain ⟨hne, hc⟩ := h.live_nodup.mem_erase_iff.mp hc
  have hurl : c.url ≠ call.url := fun heq => hne (h.url_injective hcall hc heq)
  rw [JsMap.get_delete, if_neg hurl]
  exact ⟨hurl, h.running c hc⟩

/-- A download that is dropped. -/
theorem of_ended (h : Inv s) (hcall : call ∈ s.live) : Inv (s.ended call) := by
  have hsub : (s.live.erase call).Sublist s.live := List.erase_sublist
  have hids := ((hsub.map Fetch.id).append_right (s.prefetched.map (·.2.fetch.id))).append_right
    (s.taken.map (·.entry.fetch.id))
  exact { h with
    running := fun c hc => (h.running_ended hcall c hc).2
    wanted := fun c hc hgen => h.wanted c (hsub.subset hc) hgen
    once := h.once.sublist hids
    fresh := fun id hid => h.fresh id (hids.subset hid) }

/-- **A download that ends well** is dropped, or it is counted and its URL was not held. -/
theorem of_fetched (h : Inv s) (hcall : call ∈ s.live) : Inv (s.fetched call d) := by
  unfold Prefetch.fetched
  split
  · exact h.of_ended hcall
  · rename_i hkeep
    obtain ⟨hgen, hfits⟩ := not_or.mp hkeep
    have hgen : call.startedIn = s.generation := (not_not.mp hgen).symm
    have hnone := h.wanted call hcall hgen
    have hset := JsMap.set_of_get_eq_none (v := ({ d with fetch := call } : PrefetchedExtension))
      hnone
    have htotal : totalBytes (s.prefetched.set call.url { d with fetch := call }) =
        totalBytes s.prefetched + d.bytes.length := by
      rw [hset, totalBytes, List.map_append, List.sum_append]
      rfl
    -- the number moves from the calls under way to the entries that are held
    have hids : ((s.live.erase call).map Fetch.id ++
        (s.prefetched.set call.url { d with fetch := call }).map (·.2.fetch.id) ++
        s.taken.map (·.entry.fetch.id)).Perm (s.live.map Fetch.id ++
          s.prefetched.map (·.2.fetch.id) ++ s.taken.map (·.entry.fetch.id)) := by
      refine List.Perm.append_right _ ?_
      have hlive := (List.perm_cons_erase hcall).map Fetch.id
      rw [hset, List.map_append, ← List.append_assoc]
      exact (List.perm_append_singleton _ _).trans (hlive.symm.append_right _)
    refine ⟨?_, ?_, ?_, ?_, ?_, ?_, h.taken, ?_, ?_⟩
    · show s.heldBytes + (d.bytes.length : Int) = _
      rw [h.held]
      exact_mod_cast htotal.symm
    · have hle := h.held
      show totalBytes (s.prefetched.set call.url _) ≤ _
      omega
    · show ((s.prefetched.set call.url _).map Prod.fst).Nodup
      rw [hset, List.map_append]
      exact (List.perm_append_singleton _ _).nodup_iff.mpr
        (List.nodup_cons.mpr ⟨JsMap.get_eq_none_iff.mp hnone, h.keys⟩)
    · exact fun c hc => (h.running_ended hcall c hc).2
    · intro c hc hcur
      show (s.prefetched.set call.url _).get c.url = none
      rw [JsMap.get_set, if_neg (h.running_ended hcall c hc).1]
      exact h.wanted c (List.mem_of_mem_erase hc) hcur
    · intro e he
      have he : e ∈ s.prefetched.set call.url { d with fetch := call } := he
      rw [hset] at he
      rcases List.mem_append.mp he with he | he
      · exact h.current e he
      · rw [List.mem_singleton.mp he]
        exact hgen
    · exact hids.nodup_iff.mpr h.once
    · exact fun id hid => h.fresh id (hids.mem_iff.mp hid)

/-- **A take** moves the entry to what has been handed out. -/
theorem of_take (h : Inv s) : Inv (s.takePrefetchedExtension url) := by
  unfold Prefetch.takePrefetchedExtension
  split
  · exact h
  · rename_i entry hget
    have hperm := JsMap.perm_cons_delete h.keys hget
    have htotal : totalBytes s.prefetched =
        entry.byteLength + totalBytes (s.prefetched.delete url) := by
      unfold totalBytes
      rw [(hperm.map _).sum_eq, List.map_cons, List.sum_cons]
    have hids : (s.live.map Fetch.id ++ (s.prefetched.delete url).map (·.2.fetch.id) ++
        (entry.fetch.id :: s.taken.map (·.entry.fetch.id))).Perm (s.live.map Fetch.id ++
          s.prefetched.map (·.2.fetch.id) ++ s.taken.map (·.entry.fetch.id)) := by
      have hheld := hperm.map (·.2.fetch.id)
      refine List.perm_middle.trans ?_
      rw [← List.cons_append]
      refine List.Perm.append_right _ (List.perm_middle.symm.trans ?_)
      exact hheld.symm.append_left _
    have hcur : entry.fetch.startedIn = s.generation := h.current _ (JsMap.mem_of_get hget)
    refine ⟨?_, ?_, ?_, h.running, ?_, ?_, ?_, ?_, ?_⟩
    · have hle := h.held
      show s.heldBytes - (entry.byteLength : Int) = (totalBytes (s.prefetched.delete url) : Int)
      omega
    · have hle := h.limit
      show totalBytes (s.prefetched.delete url) ≤ _
      omega
    · exact h.keys.sublist (JsMap.delete_sublist.map _)
    · intro c hc hgen
      show (s.prefetched.delete url).get c.url = none
      rw [JsMap.get_delete, h.wanted c hc hgen, ite_self]
    · exact fun e he => h.current e (JsMap.delete_sublist.subset he)
    · intro t ht
      rcases List.mem_cons.mp ht with rfl | ht
      · exact hcur
      · exact h.taken t ht
    · exact hids.nodup_iff.mpr h.once
    · exact fun id hid => h.fresh id (hids.mem_iff.mp hid)

/-- A clear starts a generation in which nothing has been fetched. -/
theorem of_clear (h : Inv s) : Inv s.clearPrefetchedExtensions := by
  have hids : List.Sublist
      (s.live.map Fetch.id ++ [] ++ s.taken.map fun t => t.entry.fetch.id)
      (s.live.map Fetch.id ++ s.prefetched.map (fun e => e.2.fetch.id) ++
        s.taken.map fun t => t.entry.fetch.id) :=
    ((List.nil_sublist _).append_left _).append_right _
  refine ⟨rfl, Nat.zero_le _, List.nodup_nil, h.running, fun _ _ _ => rfl, ?_, h.taken,
    h.once.sublist hids, fun id hid => h.fresh id (hids.subset hid)⟩
  intro e he
  cases he

/-- **One event keeps the invariant.** -/
theorem of_step (h : Inv s) {e : Event} (hs : step s e = some s') : Inv s' := by
  cases e with
  | prefetch url throws =>
    obtain rfl := Option.some.inj hs
    exact h.of_prefetch throws
  | fetched call d =>
    rw [step] at hs
    split at hs
    next hcall => exact Option.some.inj hs ▸ h.of_fetched hcall
    next => cases hs
  | failed call =>
    rw [step] at hs
    split at hs
    next hcall => exact Option.some.inj hs ▸ h.of_ended hcall
    next => cases hs
  | take url =>
    obtain rfl := Option.some.inj hs
    exact h.of_take
  | clear =>
    obtain rfl := Option.some.inj hs
    exact h.of_clear

theorem run (h : Inv s) {es : List Event} (hrun : Run step Always s es s') : Inv s' :=
  hrun.invariant h fun _ _ _ hinv _ hs => hinv.of_step hs

end Inv

/-- **The accounting of prefetched extensions.** However the turns of the loop, the ends of the
downloads, the takes and the clears follow each other: the count is the total size of what is held,
which is held under distinct URLs and stays within the limit; what is held was fetched in this
generation and what has been taken was taken in the generation in which its download was started,
so that no clear was in between; and no download has been handed out twice or is still held after
it was handed out. -/
theorem accounting {es : List Event} {s : Prefetch} (h : Run step Always .initial es s) :
    s.heldBytes = totalBytes s.prefetched ∧ (s.prefetched.map Prod.fst).Nodup ∧
    totalBytes s.prefetched ≤ MAX_HELD_BYTES ∧
    (∀ e ∈ s.prefetched, e.2.fetch.startedIn = s.generation) ∧
    (∀ t ∈ s.taken, t.entry.fetch.startedIn = t.generation) ∧
    (s.prefetched.map (·.2.fetch.id) ++ s.taken.map (·.entry.fetch.id)).Nodup := by
  have hinv := initial_inv.run h
  have honce := hinv.once
  rw [List.append_assoc] at honce
  exact ⟨hinv.held, hinv.keys, hinv.limit, hinv.current, hinv.taken, honce.of_append_right⟩

/-- Two downloads, a clear between the start and the end of the second, and a take of the first
before it. -/
theorem accounting_cleared :
    ∃ s, Run step Always .initial
      [.prefetch "a" false, .prefetch "b" false, .fetched ⟨0, "a", 0⟩ ⟨[1, 2], none, none⟩,
        .take "a", .clear, .fetched ⟨1, "b", 0⟩ ⟨[3], none, none⟩, .prefetch "b" false,
        .fetched ⟨2, "b", 1⟩ ⟨[4, 5, 6], none, none⟩] s ∧
      s.heldBytes = 3 ∧ s.taken.length = 1 ∧
      s.heldBytes = totalBytes s.prefetched := by
  obtain ⟨s, hrun, hs⟩ := Run.exists_of_execute (show (execute step Always .initial
      [.prefetch "a" false, .prefetch "b" false, .fetched ⟨0, "a", 0⟩ ⟨[1, 2], none, none⟩,
        .take "a", .clear, .fetched ⟨1, "b", 0⟩ ⟨[3], none, none⟩, .prefetch "b" false,
        .fetched ⟨2, "b", 1⟩ ⟨[4, 5, 6], none, none⟩]).map
      (fun s => decide (s.heldBytes = 3 ∧ s.taken.length = 1)) = some true by decide +kernel)
  have hend := of_decide_eq_true hs
  exact ⟨s, hrun, hend.1, hend.2, (accounting hrun).1⟩

end Haybarn.Worker.ExtensionPrefetch
