import Haybarn.Lib.Owned
import Haybarn.Lib.Run

/-!
# Access handles of the browser runtime

A file of the origin private file system is read and written through a synchronous access handle,
which the worker has to open ahead of time, as opening is asynchronous (`prepareFileHandles`,
`registerFileHandleAsync` in bindings_base.ts and runtime_browser.ts). A handle that has been
opened for a path is put into `_preparedHandles`; from there it gets into `_files` when it is
registered, if its file is not empty, or else when the web filesystem first asks for the file
(`getFileInfo`). `dropFile` closes what is in `_files`. While a handle is open, no other one can be
opened for its file, so one that is in neither of the two keeps its file locked for good.

**Whatever the order in which the operations go on, every open handle stands under one name, and in
one of the two** (`handles_referenced_once`), with the exceptions of `Tidy`: a registration that
is refused, or that takes the place of another handle, a handle that is moved, and one that cannot be
flushed when it is dropped.

Mirroring notes:
- An event is what runs until the next `await` that has to wait for the browser. The rest of an
  operation that waits is a `Task`, and its promise has a number.
- Opening a handle may fail for any reason, and does for a file that has one (`opened`).
- Sizes, and whether the web filesystem refuses a name, come with the event.
- A path to prepare starts with `opfs://`. Names are no members that every object has.
- Messages to the threads, and the files that are not access handles, are left out but for the
  latter's names (`other`).
-/

namespace Haybarn.Runtime.AccessHandles

open Haybarn.Lib

abbrev Handle := Nat

/-- The folders of a file, and its name. -/
abbrev Location := List String

/-- `PATH_SEP_REGEX` -/
def isPathSep (c : Char) : Bool := c = '/' || c = '\\'

/-- Where the file of a path is. A path that ends in a separator is invalid. -/
def location (path : String) : Option Location :=
  let folders := (path.toList.drop 7).splitOnP isPathSep
  if folders.length ≠ 1 ∧ folders.getLast? = some [] then none
  else some (folders.map String.ofList)

inductive FileHandle
  | access (handle : Handle)
  /-- A blob, or whatever else was registered. -/
  | other
  deriving DecidableEq, Repr

structure PreparedDBFileHandle where
  path : String
  /-- `none` for the handle in `_files` (`fromCached`), which no one reads. -/
  handle : Option Handle
  deriving DecidableEq, Repr

/-- What is left of an operation that waits for a handle. -/
inductive Task
  /-- `prepareFileHandles`: the path, those after it, and the handles so far. -/
  | prepare (path : String) (paths : List String) (result : List PreparedDBFileHandle)
  /-- `registerFileHandleAsync` with a file, or a name, that is at this location. -/
  | register (name : String) (location : Location)
  deriving DecidableEq, Repr

/-- Where the file is that a handle is opened for. -/
def Task.location : Task → Location
  | .prepare path _ _ => (AccessHandles.location path).getD []
  | .register _ l => l

structure Worker where
  files : String → Option FileHandle
  preparedHandles : String → Option Handle
  /-- The handles that are open, in the browser. -/
  opened : List (Handle × Location)
  nextHandle : Handle
  tasks : Nat → Option Task

/-- What the operations find out: the size of an open file, and the names that are refused. -/
structure World where
  getSize : Handle → Nat
  refuses : String → Bool

namespace Worker

def initial : Worker where
  files _ := none
  preparedHandles _ := none
  opened := []
  nextHandle := 0
  tasks _ := none

variable (w : Worker)

def isOpen (h : Handle) : Bool := w.opened.any fun e => e.1 = h

/-- `registerFileHandle`, after the web filesystem has accepted the name. -/
def registerFileHandle (name : String) (handle : FileHandle) : Worker :=
  { w with
    files := Function.update w.files name (some handle)
    preparedHandles := Function.update w.preparedHandles name none }

/-- The loop of `prepareFileHandle` and `prepareDBFileHandle`. `getSize` throws for a handle that
has been closed. -/
def registerPrepared (world : World) : Worker → List PreparedDBFileHandle → Worker
  | w, [] => w
  | w, item :: list =>
    match item.handle with
    | none => registerPrepared world w list
    | some handle =>
      if w.isOpen handle then
        if world.getSize handle = 0 then registerPrepared world w list
        else if world.refuses item.path then w
        else registerPrepared world (w.registerFileHandle item.path (.access handle)) list
      else w

/-- `prepareFileHandles`, up to the next path that needs a handle. -/
def prepareFileHandles (world : World) (task : Nat) :
    List String → List PreparedDBFileHandle → Worker
  | [], result => w.registerPrepared world result
  | path :: paths, result =>
    if (w.files path).isSome then prepareFileHandles world task paths (result ++ [⟨path, none⟩])
    else if (location path).isNone then w
    else { w with tasks := Function.update w.tasks task (some (.prepare path paths result)) }

/-- The file has an open handle. -/
def isLocked (l : Location) : Bool := w.opened.any fun e => e.2 = l

/-- `createSyncAccessHandle`, for a file that is not locked: the new handle is `nextHandle`. -/
def createSyncAccessHandle (l : Location) : Worker :=
  { w with opened := w.opened ++ [(w.nextHandle, l)], nextHandle := w.nextHandle + 1 }

def endTask (t : Nat) : Worker := { w with tasks := Function.update w.tasks t none }

/-- `_preparedHandles[path] = handle` -/
def prepared (path : String) (handle : Handle) : Worker :=
  { w with preparedHandles := Function.update w.preparedHandles path (some handle) }

/-- `dropFile` of the runtime. -/
def dropFile (name : String) (flushThrows : Bool) : Worker :=
  match w.files name with
  | none => w
  | some handle =>
    let dropped := { w with files := Function.update w.files name none }
    match handle with
    | .other => dropped
    | .access h =>
      if flushThrows then dropped
      else { dropped with opened := w.opened.filter fun e => e.1 ≠ h }

/-- What `getFileInfo` does with a file that the web filesystem has told it about. -/
def getFileInfo (name : String) : Worker :=
  match w.files name, w.preparedHandles name with
  | none, some h =>
    { w with
      files := Function.update w.files name (some (.access h))
      preparedHandles := Function.update w.preparedHandles name none }
  | _, _ => w

/-- `_files.delete(handle)` deletes nothing: a handle is no key of it. -/
def moveFile (source target : String) : Worker :=
  match w.files source with
  | none => w
  | some handle => { w with files := Function.update w.files target (some handle) }

end Worker

/-! ## Steps -/

inductive Event
  /-- `prepareFileHandle` of a name, `prepareDBFileHandle` of a path and its WAL. -/
  | prepare (task : Nat) (paths : List String) (world : World)
  /-- `registerFileHandleAsync` of a file that an access handle is opened for. -/
  | register (task : Nat) (name : String) (location : Location)
  /-- `registerFileHandleAsync` of anything else. -/
  | registerOther (name : String) (world : World)
  /-- The browser has opened a handle for a task, or failed to. -/
  | opened (task : Nat) (succeeds : Bool) (world : World)
  | getFileInfo (name : String)
  | dropFile (name : String) (flushThrows : Bool)
  | moveFile (source target : String)

/-- An operation goes on with its handle, or it is over. -/
def resume (w : Worker) (t : Nat) (task : Task) (succeeds : Bool) (world : World) : Worker :=
  if succeeds && !w.isLocked task.location then
    let handle := w.nextHandle
    let w' := (w.endTask t).createSyncAccessHandle task.location
    match task with
    | .prepare path paths result =>
      (w'.prepared path handle).prepareFileHandles world t paths (result ++ [⟨path, some handle⟩])
    | .register name _ =>
      if world.refuses name then w' else w'.registerFileHandle name (.access handle)
  else w.endTask t

def step (w : Worker) : Event → Option Worker
  | .prepare t paths world =>
    if (w.tasks t).isSome then none else some (w.prepareFileHandles world t paths [])
  | .register t name l =>
    if (w.tasks t).isSome then none
    else some { w with tasks := Function.update w.tasks t (some (.register name l)) }
  | .registerOther name world =>
    some (if world.refuses name then w else w.registerFileHandle name .other)
  | .opened t succeeds world => (w.tasks t).map fun task => resume w t task succeeds world
  | .getFileInfo name => some (w.getFileInfo name)
  | .dropFile name flushThrows => some (w.dropFile name flushThrows)
  | .moveFile source target => some (w.moveFile source target)

/-! ## Where the handles are -/

/-- A name in `_files` or in `_preparedHandles`. -/
inductive Place
  | files (name : String)
  | prepared (name : String)
  deriving DecidableEq, Repr

def FileHandle.access? : FileHandle → Option Handle
  | .access h => some h
  | .other => none

def Worker.handleAt (w : Worker) : Place → Option Handle
  | .files name => (w.files name).bind FileHandle.access?
  | .prepared name => w.preparedHandles name

/-- No access handle stands under the name. -/
def Worker.Free (w : Worker) (name : String) : Prop :=
  w.handleAt (.files name) = none ∧ w.handleAt (.prepared name) = none

/-- The handle that a task opens finds no other one under its name, and is not refused. -/
def Task.Finds (w : Worker) (world : World) : Task → Prop
  | .prepare path _ _ => w.handleAt (.files path) = none
  | .register name _ => world.refuses name = false ∧ w.Free name

/-- The steps that keep a handle where it is found: a handle that is opened finds its name free, and
one that is dropped can be flushed. None is moved. -/
def Tidy (w : Worker) : Event → Prop
  | .prepare _ _ _ => True
  | .register _ _ _ => True
  | .registerOther name world => world.refuses name = false → w.Free name
  | .opened t succeeds world =>
    ∀ task ∈ w.tasks t, (succeeds && !w.isLocked task.location) = true → task.Finds w world
  | .getFileInfo _ => True
  | .dropFile name flushThrows => flushThrows = true → w.handleAt (.files name) = none
  | .moveFile source target =>
    w.files source ≠ none → w.handleAt (.files source) = none ∧ w.handleAt (.files target) = none

instance (w : Worker) (name : String) : Decidable (w.Free name) :=
  inferInstanceAs (Decidable (_ ∧ _))

instance (w : Worker) (world : World) (task : Task) : Decidable (task.Finds w world) :=
  match task with
  | .prepare path _ _ => inferInstanceAs (Decidable (w.handleAt (.files path) = none))
  | .register name _ => inferInstanceAs (Decidable (world.refuses name = false ∧ w.Free name))

instance (w : Worker) (e : Event) : Decidable (Tidy w e) :=
  match e with
  | .prepare _ _ _ | .register _ _ _ | .getFileInfo _ => inferInstanceAs (Decidable True)
  | .registerOther name world =>
    inferInstanceAs (Decidable (world.refuses name = false → w.Free name))
  | .opened t succeeds world =>
    inferInstanceAs (Decidable (∀ task ∈ w.tasks t,
      (succeeds && !w.isLocked task.location) = true → task.Finds w world))
  | .dropFile name flushThrows =>
    inferInstanceAs (Decidable (flushThrows = true → w.handleAt (.files name) = none))
  | .moveFile source target =>
    inferInstanceAs (Decidable (w.files source ≠ none →
      w.handleAt (.files source) = none ∧ w.handleAt (.files target) = none))

section Places

variable (w : Worker) (name : String) (h : Handle)

theorem handleAt_registerFileHandle (handle : FileHandle) :
    (w.registerFileHandle name handle).handleAt =
      Function.update (Function.update w.handleAt (.prepared name) none) (.files name)
        handle.access? := by
  funext place
  unfold Worker.registerFileHandle Worker.handleAt
  cases place with
  | files n => by_cases hn : n = name <;> simp [hn]
  | prepared n => by_cases hn : n = name <;> simp [hn]

theorem handleAt_prepared :
    (w.prepared name h).handleAt = Function.update w.handleAt (.prepared name) (some h) := by
  funext place
  unfold Worker.prepared Worker.handleAt
  cases place with
  | files n => simp
  | prepared n => by_cases hn : n = name <;> simp [hn]

/-- The handle in `_files` of a name, when the file of the name changes. -/
theorem handleAt_setFile (file : Option FileHandle) :
    ({ w with files := Function.update w.files name file } : Worker).handleAt =
      Function.update w.handleAt (.files name) (file.bind FileHandle.access?) := by
  funext place
  unfold Worker.handleAt
  cases place with
  | files n => by_cases hn : n = name <;> simp [hn]
  | prepared n => simp

variable {w name}

theorem handleAt_files {file : FileHandle} (hfile : w.files name = some file) :
    w.handleAt (.files name) = file.access? := by
  show (w.files name).bind FileHandle.access? = file.access?
  rw [hfile, Option.bind_some]

end Places

/-- A preparation that waits when the entry of an operation changes is that of the entry, or it has
waited before. -/
theorem waits_update {tasks : Nat → Option Task} {t t' : Nat} {entry : Option Task} {path : String}
    {paths : List String} {result : List PreparedDBFileHandle}
    (h : Function.update tasks t entry t' = some (.prepare path paths result)) :
    entry = some (.prepare path paths result) ∨ tasks t' = some (.prepare path paths result) := by
  rw [Function.update_apply] at h
  split at h
  · exact .inl h
  · exact .inr h

/-! ## The invariant -/

section Invariant

variable {w w' : Worker} {name : String} {h : Handle}

/-- What an operation knows of a handle that it has opened: while it is open, it stands under its
path. -/
def Worker.Listed (w : Worker) (item : PreparedDBFileHandle) : Prop :=
  ∀ h, item.handle = some h → h < w.nextHandle ∧ ∀ l, (h, l) ∈ w.opened →
    location item.path = some l ∧
      (w.handleAt (.files item.path) = some h ∨ w.handleAt (.prepared item.path) = some h)

structure Inv (w : Worker) : Prop where
  own : Owned w.handleAt w.opened
  locks : (w.opened.map Prod.snd).Nodup
  fresh : ∀ e ∈ w.opened, e.1 < w.nextHandle
  /-- A handle is prepared under the path of its file. -/
  located : ∀ name h, w.handleAt (.prepared name) = some h →
    ∃ l, location name = some l ∧ (h, l) ∈ w.opened
  /-- A name has a handle in one of the two. -/
  apart : ∀ name h, w.handleAt (.prepared name) = some h → w.handleAt (.files name) = none
  waits : ∀ t path paths result, w.tasks t = some (.prepare path paths result) →
    (location path).isSome ∧ ∀ item ∈ result, w.Listed item

theorem Inv.initial : Inv .initial where
  own := by
    have hnone : Worker.initial.handleAt = fun _ => none := by
      funext place
      cases place <;> rfl
    rw [hnone]
    exact .nil
  locks := List.nodup_nil
  fresh _ h := absurd h List.not_mem_nil
  located _ _ h := absurd h.symm (Option.some_ne_none _)
  apart _ _ h := absurd h.symm (Option.some_ne_none _)
  waits _ _ _ _ h := absurd h.symm (Option.some_ne_none _)

/-- A file has one open handle. -/
theorem Inv.locked (hw : Inv w) {h' : Handle} {l : Location} (hl : (h, l) ∈ w.opened)
    (hl' : (h', l) ∈ w.opened) : h = h' :=
  congrArg Prod.fst (List.inj_on_of_nodup_map hw.locks hl hl' rfl)

/-- The invariant reads where the handles are, and no more of `_files`. -/
theorem Inv.congr (hw : Inv w) (hat : w'.handleAt = w.handleAt) (hopened : w'.opened = w.opened)
    (hnext : w'.nextHandle = w.nextHandle)
    (htasks : ∀ t path paths result, w'.tasks t = some (.prepare path paths result) →
      (location path).isSome ∧ ∀ item ∈ result, w.Listed item) : Inv w' := by
  refine ⟨?_, ?_, ?_, ?_, ?_, ?_⟩
  · rw [hat, hopened]
    exact hw.own
  · rw [hopened]
    exact hw.locks
  · rw [hopened, hnext]
    exact hw.fresh
  · rw [hat, hopened]
    exact hw.located
  · rw [hat]
    exact hw.apart
  · unfold Worker.Listed at htasks ⊢
    rw [hat, hopened, hnext]
    exact htasks

/-! ### A handle that has been prepared gets into `_files` -/

theorem handleAt_promoted (w : Worker) (name : String) (h : Handle) (place : Place) :
    (w.registerFileHandle name (.access h)).handleAt place =
      if place = .files name then some h
      else if place = .prepared name then none else w.handleAt place := by
  rw [handleAt_registerFileHandle]
  by_cases hfiles : place = .files name
  · rw [hfiles, Function.update_self, if_pos rfl]
    rfl
  · rw [Function.update_of_ne hfiles, if_neg hfiles, Function.update_apply]

section Promote

variable (hw : Inv w) (hprepared : w.handleAt (.prepared name) = some h)

include hw hprepared

theorem Worker.Listed.promote {item : PreparedDBFileHandle} (hitem : w.Listed item) :
    (w.registerFileHandle name (.access h)).Listed item := by
  intro h' hh'
  obtain ⟨hlt, hopen⟩ := hitem h' hh'
  refine ⟨hlt, fun l hl => ?_⟩
  obtain ⟨hlocation, hat⟩ := hopen l hl
  refine ⟨hlocation, ?_⟩
  rw [handleAt_promoted, handleAt_promoted]
  by_cases hpath : item.path = name
  · -- the only handle of this name
    have hsame : h' = h := by
      rcases hat with hfiles | hprepared'
      · rw [hpath, hw.apart name h hprepared] at hfiles
        cases hfiles
      · rw [hpath, hprepared] at hprepared'
        exact (Option.some.inj hprepared').symm
    left
    rw [hpath, if_pos rfl, hsame]
  · simpa [hpath] using hat

theorem Inv.promote : Inv (w.registerFileHandle name (.access h)) where
  own := by
    rw [handleAt_registerFileHandle]
    exact hw.own.move hprepared (hw.apart name h hprepared)
  locks := hw.locks
  fresh := hw.fresh
  located n h' hn := by
    rw [handleAt_promoted, if_neg (Place.noConfusion)] at hn
    split at hn
    next => cases hn
    next => exact hw.located n h' hn
  apart n h' hn := by
    rw [handleAt_promoted, if_neg (Place.noConfusion)] at hn
    split at hn
    next => cases hn
    next hne =>
      rw [handleAt_promoted, if_neg fun heq => hne (congrArg Place.prepared (Place.files.inj heq)),
        if_neg (Place.noConfusion)]
      exact hw.apart n h' hn
  waits t path paths result ht := by
    obtain ⟨hpath, hall⟩ := hw.waits t path paths result ht
    exact ⟨hpath, fun item hitem => (hall item hitem).promote hw hprepared⟩

end Promote

theorem getFileInfo_cases (w : Worker) (name : String) :
    w.getFileInfo name = w ∧ (w.files name = none → w.preparedHandles name = none) ∨
      ∃ h, w.files name = none ∧ w.preparedHandles name = some h ∧
        w.getFileInfo name = w.registerFileHandle name (.access h) := by
  unfold Worker.getFileInfo
  cases hfiles : w.files name with
  | some file => exact .inl ⟨rfl, fun hnone => absurd hnone (Option.some_ne_none file)⟩
  | none =>
    cases hprepared : w.preparedHandles name with
    | none => exact .inl ⟨rfl, fun _ => rfl⟩
    | some h => exact .inr ⟨h, rfl, rfl, rfl⟩

theorem Inv.getFileInfo (hw : Inv w) (name : String) : Inv (w.getFileInfo name) := by
  rcases getFileInfo_cases w name with ⟨hsame, -⟩ | ⟨h, -, hprepared, heq⟩
  · rw [hsame]
    exact hw
  · rw [heq]
    exact hw.promote hprepared

/-- The registrations of some handles that have been prepared keep what the motive says. -/
def KeptBy (list : List PreparedDBFileHandle) (motive : Worker → Prop) : Prop :=
  ∀ w item h l, Inv w → w.Listed item → item ∈ list → item.handle = some h →
    (h, l) ∈ w.opened → motive w → motive (w.registerFileHandle item.path (.access h))

/-- **Registering what has been prepared** registers, one after another, handles that are open and
stand under their paths; so it keeps the invariant, and whatever else such a registration keeps. -/
theorem Inv.registerPrepared (world : World) {motive : Worker → Prop}
    {list : List PreparedDBFileHandle} (hw : Inv w) (hlist : ∀ item ∈ list, w.Listed item)
    (hstart : motive w) (hstep : KeptBy list motive) :
    Inv (w.registerPrepared world list) ∧ motive (w.registerPrepared world list) := by
  induction list generalizing w with
  | nil => exact ⟨hw, hstart⟩
  | cons item list ih =>
    have hrest : ∀ item ∈ list, w.Listed item :=
      fun item hitem => hlist item (List.mem_cons_of_mem _ hitem)
    have hstep' : KeptBy list motive :=
      fun w item h l hw hlisted hitem => hstep w item h l hw hlisted (List.mem_cons_of_mem _ hitem)
    unfold Worker.registerPrepared
    split
    next => exact ih hw hrest hstart hstep'
    next h hh =>
      split
      next hopen =>
        split
        next => exact ih hw hrest hstart hstep'
        next =>
          split
          next => exact ⟨hw, hstart⟩
          next =>
            obtain ⟨⟨h', l⟩, hl, heq⟩ := List.any_eq_true.mp hopen
            obtain rfl : h' = h := of_decide_eq_true heq
            have hnext := hstep w item h' l hw (hlist item List.mem_cons_self)
              List.mem_cons_self hh hl hstart
            obtain ⟨-, hat⟩ := hlist item List.mem_cons_self h' hh
            obtain ⟨hlocation, hfiles | hprepared⟩ := hat l hl
            · -- it is in `_files`, and nothing is prepared under its path
              have hnone : w.handleAt (.prepared item.path) = none := by
                rcases hp : w.handleAt (.prepared item.path) with _ | h''
                · rfl
                · rw [hw.apart item.path h'' hp] at hfiles
                  cases hfiles
              have hsame : (w.registerFileHandle item.path (.access h')).handleAt = w.handleAt := by
                funext place
                rw [handleAt_promoted]
                split
                next heq => rw [heq, hfiles]
                next =>
                  split
                  next heq => rw [heq, hnone]
                  next => rfl
              refine ih (hw.congr hsame rfl rfl hw.waits) (fun item' hitem' => ?_) hnext hstep'
              have hkept := hrest item' hitem'
              unfold Worker.Listed at hkept ⊢
              rwa [hsame]
            · exact ih (hw.promote hprepared)
                (fun item' hitem' => (hrest item' hitem').promote hw hprepared) hnext hstep'
      next => exact ⟨hw, hstart⟩

theorem Inv.prepareFileHandles (world : World) (t : Nat) {motive : Worker → Prop}
    {paths : List String} {result : List PreparedDBFileHandle} (hw : Inv w)
    (hresult : ∀ item ∈ result, w.Listed item) (hstart : motive w) (hstep : KeptBy result motive)
    (hwait : ∀ path paths result', (∀ item ∈ result', item ∈ result ∨ item.handle = none) →
      motive { w with tasks := Function.update w.tasks t (some (.prepare path paths result')) }) :
    Inv (w.prepareFileHandles world t paths result) ∧
      motive (w.prepareFileHandles world t paths result) := by
  induction paths generalizing result with
  | nil => exact hw.registerPrepared world hresult hstart hstep
  | cons path paths ih =>
    unfold Worker.prepareFileHandles
    split
    next =>
      have hlast : ∀ item ∈ result ++ [⟨path, none⟩], item ∈ result ∨ item.handle = none := by
        intro item hitem
        refine (List.mem_append.mp hitem).imp_right fun hlast => ?_
        rw [List.mem_singleton.mp hlast]
      refine ih (fun item hitem => ?_) (fun w item h l hw hlisted hitem hh => ?_)
        fun path paths result' hresult' => hwait path paths result' fun item hitem => ?_
      · rcases hlast item hitem with hitem | hnone
        · exact hresult item hitem
        · exact fun h hh => absurd (hh.symm.trans hnone) (Option.some_ne_none h)
      · rcases hlast item hitem with hitem | hnone
        · exact hstep w item h l hw hlisted hitem hh
        · exact absurd (hh.symm.trans hnone) (Option.some_ne_none h)
      · exact (hresult' item hitem).elim (hlast item) .inr
    next =>
      split
      next => exact ⟨hw, hstart⟩
      next hlocation =>
        refine ⟨hw.congr rfl rfl rfl fun t' path' paths' result' ht => ?_,
          hwait path paths result fun item hitem => .inl hitem⟩
        rcases waits_update ht with hnew | hold
        · obtain ⟨rfl, rfl, rfl⟩ := Task.prepare.inj (Option.some.inj hnew)
          exact ⟨Option.isSome_iff_ne_none.mpr fun hnone => hlocation (hnone ▸ rfl), hresult⟩
        · exact hw.waits t' path' paths' result' hold

/-! ### A handle is opened -/

theorem not_mem_of_unlocked {l : Location} (h : w.isLocked l = false) : ∀ e ∈ w.opened, e.2 ≠ l :=
  fun e he heq => List.any_eq_false.mp h e he (decide_eq_true heq)

/-- A handle that is new comes to a place that has none. -/
structure Acquires (w w' : Worker) (place : Place) (l : Location) : Prop where
  unlocked : w.isLocked l = false
  empty : w.handleAt place = none
  handleAt : w'.handleAt = Function.update w.handleAt place (some w.nextHandle)
  opened : w'.opened = w.opened ++ [(w.nextHandle, l)]
  nextHandle : w'.nextHandle = w.nextHandle + 1
  tasks : w'.tasks = w.tasks
  located : ∀ name, place = .prepared name →
    location name = some l ∧ w.handleAt (.files name) = none
  apart : ∀ name, place = .files name → w.handleAt (.prepared name) = none

section Acquire

variable {place : Place} {l : Location} (hacquires : Acquires w w' place l)

include hacquires

theorem Acquires.self : w'.handleAt place = some w.nextHandle := by
  rw [hacquires.handleAt, Function.update_self]

theorem Acquires.of_ne {p : Place} (hp : p ≠ place) : w'.handleAt p = w.handleAt p := by
  rw [hacquires.handleAt, Function.update_of_ne hp]

theorem Worker.Listed.acquire {item : PreparedDBFileHandle} (hitem : w.Listed item) :
    w'.Listed item := by
  intro h hh
  obtain ⟨hlt, hopen⟩ := hitem h hh
  rw [hacquires.nextHandle, hacquires.opened]
  refine ⟨Nat.lt_succ_of_lt hlt, fun l' hl' => ?_⟩
  have hold : (h, l') ∈ w.opened := by
    refine (List.mem_append.mp hl').resolve_right fun hlast => ?_
    exact absurd (congrArg Prod.fst (List.mem_singleton.mp hlast)) (Nat.ne_of_lt hlt)
  have hkept : ∀ p, w.handleAt p = some h → w'.handleAt p = some h := by
    intro p hp
    rw [hacquires.of_ne, hp]
    rintro rfl
    rw [hacquires.empty] at hp
    cases hp
  obtain ⟨hlocation, hat⟩ := hopen l' hold
  exact ⟨hlocation, hat.imp (hkept _) (hkept _)⟩

theorem Inv.acquire (hw : Inv w) : Inv w' where
  own := by
    rw [hacquires.handleAt, hacquires.opened]
    exact hw.own.acquire hacquires.empty (fun e he => Nat.ne_of_lt (hw.fresh e he)) l
  locks := by
    rw [hacquires.opened, List.map_append]
    refine List.nodup_append.mpr ⟨hw.locks, List.nodup_singleton _, fun l' hl' l'' hl'' heq => ?_⟩
    rw [heq, List.mem_singleton.mp hl''] at hl'
    obtain ⟨e, he, rfl⟩ := List.mem_map.mp hl'
    exact not_mem_of_unlocked hacquires.unlocked e he rfl
  fresh e he := by
    rw [hacquires.opened] at he
    rw [hacquires.nextHandle]
    rcases List.mem_append.mp he with he | he
    · exact Nat.lt_succ_of_lt (hw.fresh e he)
    · rw [List.mem_singleton.mp he]
      exact Nat.lt_succ_self _
  located name h hname := by
    rw [hacquires.opened]
    by_cases hp : Place.prepared name = place
    · rw [hp, hacquires.self] at hname
      obtain rfl := Option.some.inj hname
      exact ⟨l, (hacquires.located name hp.symm).1, List.mem_append_right _ List.mem_cons_self⟩
    · rw [hacquires.of_ne hp] at hname
      obtain ⟨l', hl', hin⟩ := hw.located name h hname
      exact ⟨l', hl', List.mem_append_left _ hin⟩
  apart name h hname := by
    by_cases hp : Place.prepared name = place
    · rw [hacquires.of_ne (hp ▸ Place.noConfusion)]
      exact (hacquires.located name hp.symm).2
    · rw [hacquires.of_ne hp] at hname
      have hf : Place.files name ≠ place := by
        intro hf
        rw [hacquires.apart name hf.symm] at hname
        cases hname
      rw [hacquires.of_ne hf]
      exact hw.apart name h hname
  waits t path paths result ht := by
    rw [hacquires.tasks] at ht
    obtain ⟨hpath, hall⟩ := hw.waits t path paths result ht
    exact ⟨hpath, fun item hitem => (hall item hitem).acquire hacquires⟩

end Acquire

/-! ### A handle is dropped -/

theorem Inv.drop (hw : Inv w) (hheld : w.handleAt (.files name) = some h)
    (hat : w'.handleAt = Function.update w.handleAt (.files name) none)
    (hopened : w'.opened = w.opened.filter fun e => e.1 ≠ h)
    (hnext : w'.nextHandle = w.nextHandle) (htasks : w'.tasks = w.tasks) : Inv w' := by
  have hopen : ∀ h' l, (h', l) ∈ w'.opened ↔ (h', l) ∈ w.opened ∧ h' ≠ h := by
    intro h' l
    rw [hopened, List.mem_filter, decide_eq_true_iff]
  have hold : ∀ p, p ≠ .files name → w'.handleAt p = w.handleAt p := by
    intro p hp
    rw [hat, Function.update_of_ne hp]
  -- where another handle is, it stays
  have hkept : ∀ p h', h' ≠ h → w.handleAt p = some h' → w'.handleAt p = some h' := by
    intro p h' hne hp
    rw [hold p, hp]
    rintro rfl
    exact hne (Option.some.inj (hp.symm.trans hheld))
  refine ⟨?_, ?_, ?_, ?_, ?_, ?_⟩
  · rw [hat, hopened]
    exact hw.own.release hheld
  · rw [hopened]
    exact hw.locks.sublist (List.filter_sublist.map _)
  · intro e he
    rw [hopened] at he
    rw [hnext]
    exact hw.fresh e (List.mem_filter.mp he).1
  · intro n h' hn
    rw [hold _ Place.noConfusion] at hn
    obtain ⟨l, hl, hin⟩ := hw.located n h' hn
    refine ⟨l, hl, (hopen h' l).mpr ⟨hin, ?_⟩⟩
    rintro rfl
    cases hw.own.once _ _ _ hn hheld
  · intro n h' hn
    rw [hold _ Place.noConfusion] at hn
    by_cases hname : n = name
    · rw [hname, hat, Function.update_self]
    · rw [hold _ fun heq => hname (Place.files.inj heq)]
      exact hw.apart n h' hn
  · intro t path paths result ht
    rw [htasks] at ht
    obtain ⟨hpath, hall⟩ := hw.waits t path paths result ht
    refine ⟨hpath, fun item hitem h' hh' => ?_⟩
    obtain ⟨hlt, hitem'⟩ := hall item hitem h' hh'
    rw [hnext]
    refine ⟨hlt, fun l hl => ?_⟩
    obtain ⟨hin, hne⟩ := (hopen h' l).mp hl
    obtain ⟨hlocation, hplace⟩ := hitem' l hin
    exact ⟨hlocation, hplace.imp (hkept _ h' hne) (hkept _ h' hne)⟩

theorem Inv.dropFile (hw : Inv w) {flushThrows : Bool}
    (hflush : flushThrows = true → w.handleAt (.files name) = none) :
    Inv (w.dropFile name flushThrows) := by
  unfold Worker.dropFile
  split
  next => exact hw
  next handle hfile =>
    have hat := handleAt_setFile w name none
    cases handle with
    | other =>
      refine hw.congr ?_ rfl rfl hw.waits
      exact hat.trans (Function.update_eq_self_iff.mpr (handleAt_files hfile).symm)
    | access h =>
      have hheld : w.handleAt (.files name) = some h := handleAt_files hfile
      dsimp only
      split
      next hthrows =>
        rw [hflush hthrows] at hheld
        cases hheld
      next => exact hw.drop hheld hat rfl rfl rfl

theorem Inv.moveFile (hw : Inv w) {target : String}
    (h : w.files name ≠ none → w.handleAt (.files name) = none ∧
      w.handleAt (.files target) = none) : Inv (w.moveFile name target) := by
  unfold Worker.moveFile
  split
  next => exact hw
  next handle hfile =>
    obtain ⟨hsource, htarget⟩ := h (hfile ▸ Option.some_ne_none handle)
    cases handle with
    | access h =>
      cases hsource.symm.trans (handleAt_files hfile)
    | other =>
      refine hw.congr ?_ rfl rfl hw.waits
      exact (handleAt_setFile w target (some .other)).trans
        (Function.update_eq_self_iff.mpr htarget.symm)

/-! ### Every step -/

theorem Inv.endTask (hw : Inv w) (t : Nat) : Inv (w.endTask t) := by
  refine hw.congr rfl rfl rfl fun t' path paths result ht' => ?_
  rcases waits_update ht' with hnew | hold
  · cases hnew
  · exact hw.waits t' path paths result hold

theorem isLocked_of_opens {task : Task} {succeeds : Bool}
    (h : (succeeds && !w.isLocked task.location) = true) : w.isLocked task.location = false := by
  rw [Bool.and_eq_true, Bool.not_eq_true'] at h
  exact h.2

/-- A handle for a path, which goes into `_preparedHandles`. -/
theorem Inv.openPrepared (hw : Inv w) {t : Nat} {path : String} {paths : List String}
    {result : List PreparedDBFileHandle} (ht : w.tasks t = some (.prepare path paths result))
    (hunlocked : w.isLocked (Task.prepare path paths result).location = false)
    (hfinds : w.handleAt (.files path) = none) :
    let w₁ := ((w.endTask t).createSyncAccessHandle
      (Task.prepare path paths result).location).prepared path w.nextHandle
    Inv w₁ ∧ ∀ item ∈ result ++ [⟨path, some w.nextHandle⟩], w₁.Listed item := by
  obtain ⟨hsome, hall⟩ := hw.waits t path paths result ht
  obtain ⟨l, hl⟩ := Option.isSome_iff_exists.mp hsome
  have hlocation : (Task.prepare path paths result).location = l := by
    show (location path).getD [] = l
    rw [hl, Option.getD_some]
  rw [hlocation] at hunlocked ⊢
  -- nothing is prepared for the path, as its file would be locked
  have hempty : w.handleAt (.prepared path) = none := by
    rcases hp : w.handleAt (.prepared path) with _ | h'
    · rfl
    · obtain ⟨l', hl', hin⟩ := hw.located path h' hp
      exact absurd (Option.some.inj (hl'.symm.trans hl)) (not_mem_of_unlocked hunlocked _ hin)
  have hacquires : Acquires (w.endTask t)
      (((w.endTask t).createSyncAccessHandle l).prepared path w.nextHandle) (.prepared path) l :=
    { unlocked := hunlocked
      empty := hempty
      handleAt := handleAt_prepared _ _ _
      opened := rfl
      nextHandle := rfl
      tasks := rfl
      located := fun name hname => Place.prepared.inj hname ▸ ⟨hl, hfinds⟩
      apart := fun name hname => Place.noConfusion hname }
  refine ⟨(hw.endTask t).acquire hacquires, fun item hitem => ?_⟩
  rcases List.mem_append.mp hitem with hitem | hlast
  · exact (show (w.endTask t).Listed item from hall item hitem).acquire hacquires
  · obtain rfl := List.mem_singleton.mp hlast
    intro h hh
    obtain rfl := Option.some.inj hh
    refine ⟨Nat.lt_succ_self _, fun l' hl' => ?_⟩
    have hnew : l' = l := by
      rcases List.mem_append.mp hl' with hold | hlast
      · exact absurd (hw.fresh _ hold) (Nat.lt_irrefl _)
      · exact congrArg Prod.snd (List.mem_singleton.mp hlast)
    exact ⟨hnew ▸ hl, .inr hacquires.self⟩

/-- A handle for a name, which goes into `_files`. -/
theorem Inv.openRegistered (hw : Inv w) (t : Nat) {l : Location} (hunlocked : w.isLocked l = false)
    (hfree : w.Free name) : Inv (((w.endTask t).createSyncAccessHandle l).registerFileHandle name
      (.access w.nextHandle)) := by
  have hsame : Function.update ((w.endTask t).createSyncAccessHandle l).handleAt
      (.prepared name) none = (w.endTask t).handleAt :=
    Function.update_eq_self_iff.mpr hfree.2.symm
  have hacquires : Acquires (w.endTask t) (((w.endTask t).createSyncAccessHandle
      l).registerFileHandle name (.access w.nextHandle)) (.files name) l :=
    { unlocked := hunlocked
      empty := hfree.1
      handleAt := by
        rw [handleAt_registerFileHandle, hsame]
        rfl
      opened := rfl
      nextHandle := rfl
      tasks := rfl
      located := fun name hname => Place.noConfusion hname
      apart := fun name' hname => Place.files.inj hname ▸ hfree.2 }
  exact (hw.endTask t).acquire hacquires

theorem Inv.resume (hw : Inv w) {t : Nat} {task : Task} {succeeds : Bool} {world : World}
    (ht : w.tasks t = some task) (htidy : Tidy w (.opened t succeeds world)) :
    Inv (resume w t task succeeds world) := by
  unfold AccessHandles.resume
  split
  next hopens =>
    have hfinds := htidy task ht hopens
    cases task with
    | prepare path paths result =>
      obtain ⟨hinv, hlisted⟩ := hw.openPrepared ht (isLocked_of_opens hopens) hfinds
      exact (hinv.prepareFileHandles world t (motive := fun _ => True) hlisted trivial
        (fun _ _ _ _ _ _ _ _ _ _ => trivial) fun _ _ _ _ => trivial).1
    | register name l =>
      obtain ⟨haccepted, hfree⟩ := hfinds
      dsimp only
      rw [haccepted, if_neg Bool.false_ne_true]
      exact hw.openRegistered t (isLocked_of_opens hopens) hfree
  next => exact hw.endTask t

theorem Inv.registerOther (hw : Inv w) (hfree : w.Free name) :
    Inv (w.registerFileHandle name .other) := by
  refine hw.congr ?_ rfl rfl hw.waits
  have hsame : Function.update w.handleAt (.prepared name) none = w.handleAt :=
    Function.update_eq_self_iff.mpr hfree.2.symm
  rw [handleAt_registerFileHandle, hsame]
  exact Function.update_eq_self_iff.mpr hfree.1.symm

theorem Inv.step (hw : Inv w) {e : Event} (htidy : Tidy w e) (hs : step w e = some w') :
    Inv w' := by
  cases e with
  | prepare t paths world =>
    obtain ⟨-, hs⟩ := Option.ite_none_left_eq_some.mp hs
    obtain rfl := Option.some.inj hs
    exact (hw.prepareFileHandles world t (motive := fun _ => True)
      (fun item hitem => absurd hitem List.not_mem_nil) trivial
      (fun _ _ _ _ _ _ _ _ _ _ => trivial) fun _ _ _ _ => trivial).1
  | register t name l =>
    obtain ⟨-, hs⟩ := Option.ite_none_left_eq_some.mp hs
    obtain rfl := Option.some.inj hs
    refine hw.congr rfl rfl rfl fun t' path paths result ht' => ?_
    rcases waits_update ht' with hnew | hold
    · cases hnew
    · exact hw.waits t' path paths result hold
  | registerOther name world =>
    obtain rfl := Option.some.inj hs
    split
    next => exact hw
    next haccepted => exact hw.registerOther (htidy (Bool.eq_false_iff.mpr haccepted))
  | opened t succeeds world =>
    obtain ⟨task, ht, rfl⟩ := Option.map_eq_some_iff.mp hs
    exact hw.resume ht htidy
  | getFileInfo name =>
    obtain rfl := Option.some.inj hs
    exact hw.getFileInfo name
  | dropFile name flushThrows =>
    obtain rfl := Option.some.inj hs
    exact hw.dropFile htidy
  | moveFile source target =>
    obtain rfl := Option.some.inj hs
    exact hw.moveFile htidy

end Invariant

/-- A database is opened, its log is empty until it is asked for, and a file of the user's is
registered in between. -/
def databaseRun : List Event :=
  let world : World := { getSize := fun h => if h = 0 then 12288 else 0, refuses := fun _ => false }
  [.prepare 0 ["opfs://a.db", "opfs://a.db.wal"] world, .opened 0 true world,
    .register 1 "my.csv" ["dir", "my.csv"], .opened 1 true world, .opened 0 true world,
    .getFileInfo "opfs://a.db.wal", .dropFile "my.csv" false]

section Release

variable {w w' : Worker} {name : String} {h : Handle} {l : Location} {asked : Prop}

/-- No operation has the handle. -/
def Worker.Unclaimed (w : Worker) (h : Handle) : Prop :=
  ∀ t path paths result, w.tasks t = some (.prepare path paths result) →
    ∀ item ∈ result, item.handle ≠ some h

/-- The handle of a path that has been prepared: it is in `_files` once it has been registered or
asked for, and until then it is prepared, and `_files` has nothing under the path. -/
structure Keeps (w : Worker) (name : String) (h : Handle) (l : Location) (asked : Prop) : Prop where
  location : location name = some l
  isOpen : (h, l) ∈ w.opened
  registered : asked → w.files name = some (.access h)
  prepared : ¬ asked → w.files name = none ∧ w.preparedHandles name = some h
  alone : w.Unclaimed h

theorem Keeps.isLocked (hk : Keeps w name h l asked) : w.isLocked l = true :=
  List.any_eq_true.mpr ⟨_, hk.isOpen, decide_eq_true rfl⟩

theorem Keeps.not_free (hk : Keeps w name h l asked) : ¬ w.Free name := by
  rintro ⟨hfiles, hprepared⟩
  by_cases hasked : asked
  · cases hfiles.symm.trans (handleAt_files (hk.registered hasked))
  · exact Option.some_ne_none h ((hk.prepared hasked).2.symm.trans hprepared)

/-- What is recorded of the path, and what is open, decide. -/
theorem Keeps.congr (hk : Keeps w name h l asked) (hopen : (h, l) ∈ w'.opened)
    (hfiles : w'.files name = w.files name)
    (hprepared : w'.preparedHandles name = w.preparedHandles name)
    (halone : w'.Unclaimed h) : Keeps w' name h l asked where
  location := hk.location
  isOpen := hopen
  registered hasked := hfiles.trans (hk.registered hasked)
  prepared hasked :=
    ⟨hfiles.trans (hk.prepared hasked).1, hprepared.trans (hk.prepared hasked).2⟩
  alone := halone

/-- The part of `Keeps` that a registration under another path leaves alone. -/
structure SameRecord (w w' : Worker) (name : String) : Prop where
  files : w'.files name = w.files name
  preparedHandles : w'.preparedHandles name = w.preparedHandles name
  opened : ∀ e ∈ w.opened, e ∈ w'.opened

theorem SameRecord.registerFileHandle (hs : SameRecord w w' name) {path : String}
    (hpath : path ≠ name) (handle : FileHandle) :
    SameRecord w (w'.registerFileHandle path handle) name :=
  ⟨(Function.update_of_ne hpath.symm _ _).trans hs.files,
    (Function.update_of_ne hpath.symm _ _).trans hs.preparedHandles, hs.opened⟩

/-- A handle that another operation has prepared is of another path: the file of this one is
locked. -/
theorem Keeps.path_ne (hinv : Inv w) (hlocation : AccessHandles.location name = some l)
    (hopen : (h, l) ∈ w.opened) {item : PreparedDBFileHandle} {h' : Handle} {l' : Location}
    (hlisted : w.Listed item) (hh : item.handle = some h') (hne : item.handle ≠ some h)
    (hl' : (h', l') ∈ w.opened) : item.path ≠ name := by
  intro hpath
  have hl := ((hlisted h' hh).2 l' hl').1
  rw [hpath, hlocation] at hl
  obtain rfl := Option.some.inj hl
  exact hne (hinv.locked hl' hopen ▸ hh)

/-- **An operation that goes on with other handles leaves the path alone.** -/
theorem Keeps.prepareFileHandles (hk : Keeps w name h l asked) {w₁ : Worker} (hinv : Inv w₁)
    (hsame : SameRecord w w₁ name) (world : World) (t : Nat) {paths : List String}
    {result : List PreparedDBFileHandle} (hresult : ∀ item ∈ result, w₁.Listed item)
    (hnot : ∀ item ∈ result, item.handle ≠ some h) (halone : w₁.Unclaimed h) :
    Keeps (w₁.prepareFileHandles world t paths result) name h l asked := by
  have hall : Inv (w₁.prepareFileHandles world t paths result) ∧ _ :=
    hinv.prepareFileHandles world t
      (motive := fun w' => SameRecord w w' name ∧ w'.Unclaimed h)
      hresult ⟨hsame, halone⟩ (fun w' item h' l' hinv' hlisted hitem hh hl' hmotive => by
        have hpath := Keeps.path_ne hinv' hk.location (hmotive.1.opened _ hk.isOpen) hlisted hh
          (hnot item hitem) hl'
        exact ⟨hmotive.1.registerFileHandle hpath _, hmotive.2⟩)
      (fun path paths result' hresult' => by
        refine ⟨⟨hsame.files, hsame.preparedHandles, hsame.opened⟩, ?_⟩
        intro t' path' paths' result'' ht
        rcases waits_update ht with hnew | hold
        · obtain ⟨-, -, rfl⟩ := Task.prepare.inj (Option.some.inj hnew)
          intro item hitem
          rcases hresult' item hitem with hitem | hnone
          · exact hnot item hitem
          · exact fun heq => Option.some_ne_none h (heq.symm.trans hnone)
        · exact halone t' path' paths' result'' hold)
  obtain ⟨-, hsame', halone'⟩ := hall
  exact hk.congr (hsame'.opened _ hk.isOpen) hsame'.files hsame'.preparedHandles halone'

/-- A step that neither drops the path nor moves a file to it. -/
def Spares (name : String) : Event → Prop
  | .dropFile n _ => n ≠ name
  | .moveFile _ target => target ≠ name
  | _ => True

/-- **The handle of a path stays**, and gets into `_files` at last when the file is asked for. -/
theorem Keeps.step (hk : Keeps w name h l asked) (hw : Inv w) {e : Event} (htidy : Tidy w e)
    (hspares : Spares name e) (hs : step w e = some w') :
    Keeps w' name h l (asked ∨ e = .getFileInfo name) := by
  -- any other step leaves it as it is
  have hother : Keeps w' name h l asked → e ≠ .getFileInfo name →
      Keeps w' name h l (asked ∨ e = .getFileInfo name) := by
    intro hk' hne
    rwa [show (asked ∨ e = .getFileInfo name) = asked from propext (or_iff_left hne)]
  cases e with
  | prepare t paths world =>
    obtain ⟨-, hs⟩ := Option.ite_none_left_eq_some.mp hs
    obtain rfl := Option.some.inj hs
    refine hother (hk.prepareFileHandles hw ⟨rfl, rfl, fun _ he => he⟩ world t
      (fun item hitem => absurd hitem List.not_mem_nil)
      (fun item hitem => absurd hitem List.not_mem_nil) hk.alone) Event.noConfusion
  | register t n l' =>
    obtain ⟨-, hs⟩ := Option.ite_none_left_eq_some.mp hs
    obtain rfl := Option.some.inj hs
    refine hother (hk.congr hk.isOpen rfl rfl fun t' path paths result ht => ?_)
      Event.noConfusion
    rcases waits_update ht with hnew | hold
    · cases hnew
    · exact hk.alone t' path paths result hold
  | registerOther n world =>
    obtain rfl := Option.some.inj hs
    refine hother ?_ Event.noConfusion
    split
    next => exact hk
    next haccepted =>
      have hfree := htidy (Bool.eq_false_iff.mpr haccepted)
      have hne : n ≠ name := fun heq => hk.not_free (heq ▸ hfree)
      have hsame : SameRecord w (w.registerFileHandle n .other) name :=
        (SameRecord.mk rfl rfl fun _ he => he).registerFileHandle hne .other
      exact hk.congr hk.isOpen hsame.files hsame.preparedHandles hk.alone
  | opened t succeeds world =>
    obtain ⟨task, ht, rfl⟩ := Option.map_eq_some_iff.mp hs
    refine hother ?_ Event.noConfusion
    have hended : (w.endTask t).Unclaimed h := by
      intro t' path paths result ht'
      rcases waits_update ht' with hnew | hold
      · cases hnew
      · exact hk.alone t' path paths result hold
    have hopened : ∀ l', ∀ e ∈ w.opened, e ∈ ((w.endTask t).createSyncAccessHandle l').opened :=
      fun _ _ he => List.mem_append_left _ he
    unfold resume
    split
    next hopens =>
      have hunlocked := isLocked_of_opens hopens
      have hfinds := htidy task ht hopens
      cases task with
      | prepare path paths result =>
        -- the path is another one, whose file is not locked
        have hne : path ≠ name := by
          rintro rfl
          have hsame : (Task.prepare path paths result).location = l := by
            show (AccessHandles.location path).getD [] = l
            rw [hk.location, Option.getD_some]
          rw [hsame, hk.isLocked] at hunlocked
          cases hunlocked
        obtain ⟨hinv₁, hlisted⟩ := hw.openPrepared ht hunlocked hfinds
        refine hk.prepareFileHandles hinv₁
          ⟨rfl, Function.update_of_ne hne.symm _ _, hopened _⟩ world t hlisted
          (fun item hitem => ?_) hended
        rcases List.mem_append.mp hitem with hitem | hlast
        · exact hk.alone t path paths result ht item hitem
        · rw [List.mem_singleton.mp hlast]
          exact fun heq => Nat.ne_of_gt (hw.fresh _ hk.isOpen) (Option.some.inj heq)
      | register n l' =>
        obtain ⟨haccepted, hfree⟩ := hfinds
        have hne : n ≠ name := fun heq => hk.not_free (heq ▸ hfree)
        dsimp only
        rw [haccepted, if_neg Bool.false_ne_true]
        have hsame : SameRecord w (((w.endTask t).createSyncAccessHandle l').registerFileHandle n
            (.access w.nextHandle)) name :=
          (show SameRecord w ((w.endTask t).createSyncAccessHandle l') name from
            ⟨rfl, rfl, hopened l'⟩).registerFileHandle hne _
        exact hk.congr (hsame.opened _ hk.isOpen) hsame.files hsame.preparedHandles hended
    next => exact hk.congr hk.isOpen rfl rfl hended
  | getFileInfo n =>
    obtain rfl := Option.some.inj hs
    rcases getFileInfo_cases w n with ⟨hsame, hnone⟩ | ⟨h', hfiles, hprepared, heq⟩
    · rw [hsame] at hother ⊢
      by_cases hn : n = name
      · subst hn
        have hasked : asked := by
          by_contra hnot
          obtain ⟨hfiles, hprepared⟩ := hk.prepared hnot
          exact Option.some_ne_none h (hprepared.symm.trans (hnone hfiles))
        exact ⟨hk.location, hk.isOpen, fun _ => hk.registered hasked,
          fun hnot => absurd (.inl hasked) hnot, hk.alone⟩
      · exact hother hk fun heq => hn (Event.getFileInfo.inj heq)
    · rw [heq] at hother ⊢
      by_cases hn : n = name
      · subst hn
        have hnot : ¬ asked := by
          intro hasked
          exact Option.some_ne_none _ ((hk.registered hasked).symm.trans hfiles)
        obtain rfl := Option.some.inj (hprepared.symm.trans (hk.prepared hnot).2)
        exact ⟨hk.location, hk.isOpen, fun _ => Function.update_self .., fun hnot =>
          absurd (.inr rfl) hnot, hk.alone⟩
      · have hsame : SameRecord w (w.registerFileHandle n (.access h')) name :=
          (SameRecord.mk rfl rfl fun _ he => he).registerFileHandle hn _
        exact hother (hk.congr hk.isOpen hsame.files hsame.preparedHandles hk.alone)
          fun heq => hn (Event.getFileInfo.inj heq)
  | dropFile n flushThrows =>
    obtain rfl := Option.some.inj hs
    have hne : n ≠ name := hspares
    refine hother ?_ Event.noConfusion
    unfold Worker.dropFile
    cases hfile : w.files n with
    | none => exact hk
    | some file =>
      dsimp only
      have hfiles : ∀ file, Function.update w.files n file name = w.files name :=
        fun file => Function.update_of_ne hne.symm _ _
      cases file with
      | other => exact hk.congr hk.isOpen (hfiles _) rfl hk.alone
      | access h' =>
        -- another name has another handle
        have hother : h ≠ h' := by
          rintro rfl
          have hat : w.handleAt (.files n) = some h := handleAt_files hfile
          by_cases hasked : asked
          · have hat' : w.handleAt (.files name) = some h := handleAt_files (hk.registered hasked)
            exact hne (Place.files.inj (hw.own.once _ _ _ hat hat'))
          · cases hw.own.once _ _ _ hat
              (show w.handleAt (.prepared name) = some h from (hk.prepared hasked).2)
        dsimp only
        split
        next => exact hk.congr hk.isOpen (hfiles _) rfl hk.alone
        next =>
          exact hk.congr (List.mem_filter.mpr ⟨hk.isOpen, decide_eq_true hother⟩) (hfiles _) rfl
            hk.alone
  | moveFile source target =>
    obtain rfl := Option.some.inj hs
    have hne : target ≠ name := hspares
    refine hother ?_ Event.noConfusion
    unfold Worker.moveFile
    split
    next => exact hk
    next => exact hk.congr hk.isOpen (Function.update_of_ne hne.symm _ _) rfl hk.alone

/-- A path that has been prepared is registered, unless its file is empty. -/
theorem keeps_of_opened (hw : Inv w) {t : Nat} {world : World} {path : String}
    (ht : w.tasks t = some (.prepare path [] [])) (hl : location path = some l)
    (hunlocked : w.isLocked l = false) (hfiles : w.files path = none)
    (haccepts : world.refuses path = false) (hs : step w (.opened t true world) = some w') :
    Keeps w' path w.nextHandle l (world.getSize w.nextHandle ≠ 0) := by
  have hlocation : (Task.prepare path [] []).location = l := by
    show (location path).getD [] = l
    rw [hl, Option.getD_some]
  have hopens : (true && !w.isLocked (Task.prepare path [] []).location) = true := by
    rw [hlocation, hunlocked]
    rfl
  obtain ⟨task, htask, rfl⟩ := Option.map_eq_some_iff.mp hs
  obtain rfl := Option.some.inj (ht.symm.trans htask)
  have hopen : (w.nextHandle, l) ∈ w.opened ++ [(w.nextHandle, l)] :=
    List.mem_append_right _ List.mem_cons_self
  -- no operation knows the new handle
  have halone : (w.endTask t).Unclaimed w.nextHandle := by
    intro t' path' paths result ht' item hitem heq
    obtain ⟨-, hlisted⟩ := (hw.endTask t).waits t' path' paths result ht'
    exact Nat.lt_irrefl _ (hlisted item hitem _ heq).1
  unfold resume
  rw [if_pos hopens, hlocation]
  dsimp only [Worker.prepareFileHandles, List.nil_append, Worker.registerPrepared]
  have hisOpen : (((w.endTask t).createSyncAccessHandle l).prepared path w.nextHandle).isOpen
      w.nextHandle = true := List.any_eq_true.mpr ⟨_, hopen, decide_eq_true rfl⟩
  rw [if_pos hisOpen]
  by_cases hsize : world.getSize w.nextHandle = 0
  · rw [if_pos hsize]
    exact ⟨hl, hopen, fun hasked => absurd hsize hasked,
      fun _ => ⟨hfiles, Function.update_self ..⟩, halone⟩
  · rw [if_neg hsize, haccepts, if_neg Bool.false_ne_true]
    exact ⟨hl, hopen, fun _ => Function.update_self .., fun hnot => absurd hsize hnot, halone⟩

end Release

end Haybarn.Runtime.AccessHandles
