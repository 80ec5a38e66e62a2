/-
What is left of a state file when writing it stops.

* `FolderStep` — what is done to a folder at once: a file is made, a character is added to one, a
  file gets another name;
* `Folder.takeAll` — steps, one after the other;
* `FileStore.flushSteps` — the steps in which a store writes its file;
* `FileStore.Attempt` — what a put can come to on a disk that may fail at any step;
* `FileStore.Attempts` — puts, some of which fail, one after the other.

A file is written under another name, and the last step alone puts it in the place of the state
file (`read_of_stopped`). What `FileStore.put` does is such an attempt (`attempt_of_put`): it takes
all the steps, or stops where the folder does not allow the next.
-/
import MinerFleet.Proofs.Store.File

namespace MinerFleet

/-! ### Steps -/

/-- What is done to a folder at once. -/
inductive FolderStep where
  | create (name : String)
  | append (name : String) (c : Char)
  | rename (old new : String)
deriving DecidableEq

namespace Folder

/-- The folder after a step, unless it does not allow it. -/
def take (f : Folder) : FolderStep → Except FileFault Folder
  | .create name => f.write name ""
  | .append name c => do
    let text ← f.read name
    return { f with nodes := f.nodes.insert name (.file (text.push c)) }
  | .rename old new => f.rename old new

/-- The folder after some steps, one after the other. -/
def takeAll (f : Folder) (steps : List FolderStep) : Except FileFault Folder :=
  steps.foldlM take f

/-- The steps in which a file is written. -/
def writeSteps (name text : String) : List FolderStep :=
  .create name :: text.toList.map (.append name)

theorem takeAll_append (f : Folder) (before after : List FolderStep) :
    f.takeAll (before ++ after) = f.takeAll before >>= fun g => g.takeAll after :=
  List.foldlM_append

theorem read_insert (f : Folder) (name text other : String) :
    ({ f with nodes := f.nodes.insert name (.file text) } : Folder).read other =
      if name = other then .ok text else f.read other := by
  rw [read, KeyMap.get?_insert]
  by_cases h : name = other
  · rw [if_pos h, if_pos h]
  · rw [if_neg h, if_neg h, read]

/-- A file grows by the characters that are added to it. -/
theorem takeAll_appends (f : Folder) (name : String) (cs : List Char) (text : String) :
    ({ f with nodes := f.nodes.insert name (.file text) } : Folder).takeAll
        (cs.map (.append name)) =
      .ok { f with nodes := f.nodes.insert name (.file (text ++ String.ofList cs)) } := by
  induction cs generalizing text with
  | nil => simp [takeAll, pure, Except.pure]
  | cons c cs ih =>
    have htext : text ++ String.ofList (c :: cs) = text.push c ++ String.ofList cs := by
      apply String.ext
      simp
    have hnodes : (f.nodes.insert name (.file text)).insert name (.file (text.push c)) =
        f.nodes.insert name (.file (text.push c)) := by
      apply KeyMap.ext
      intro key
      simp only [KeyMap.get?_insert]
      by_cases h : name = key
      · rw [if_pos h, if_pos h]
      · rw [if_neg h, if_neg h, if_neg h]
    rw [List.map_cons, takeAll, List.foldlM_cons, take, read_insert, if_pos rfl]
    simp only [bind, Except.bind, pure, Except.pure, hnodes]
    rw [htext]
    exact ih (text.push c)

/-- Step by step, a file is written as it is all at once. -/
theorem takeAll_writeSteps (f : Folder) (name text : String) :
    f.takeAll (writeSteps name text) = f.write name text := by
  rw [writeSteps, takeAll, List.foldlM_cons, take]
  by_cases hthere : f.there = true
  · by_cases hfolder : f.nodes.get? name = some .folder
    · simp [write, hthere, hfolder, bind, Except.bind]
    · rw [FileStore.Folder.write_eq_ok hthere hfolder, FileStore.Folder.write_eq_ok hthere hfolder]
      have happends := takeAll_appends f name text.toList ""
      rw [String.ofList_toList, String.empty_append] at happends
      exact happends
  · simp [write, hthere, bind, Except.bind]

/-- A step that does not take place under a name. -/
def Spares (name : String) : FolderStep → Prop
  | .create other => other ≠ name
  | .append other _ => other ≠ name
  | .rename old new => old ≠ name ∧ new ≠ name

theorem read_of_take {f g : Folder} {step : FolderStep} {name : String} (hs : Spares name step)
    (h : f.take step = .ok g) : g.read name = f.read name := by
  cases step with
  | create other =>
    rw [take, write] at h
    split at h
    · cases h
    · split at h
      · cases h
      · rw [← Except.ok.inj h, read_insert, if_neg hs]
  | append other c =>
    rw [take, bind_eq_ok] at h
    obtain ⟨text, -, h⟩ := h
    rw [← Except.ok.inj h, read_insert, if_neg hs]
  | rename old new =>
    rw [take, rename] at h
    split at h
    · cases h
    · split at h
      · cases h
      · rw [← Except.ok.inj h, read, KeyMap.get?_insert, if_neg hs.2, KeyMap.get?_erase,
          if_neg hs.1, read]

/-- Steps that do not take place under a name leave what stands there. -/
theorem read_of_takeAll {f g : Folder} {steps : List FolderStep} {name : String}
    (hs : ∀ step ∈ steps, Spares name step) (h : f.takeAll steps = .ok g) :
    g.read name = f.read name := by
  induction steps generalizing f with
  | nil => rw [← Except.ok.inj h]
  | cons step steps ih =>
    rw [takeAll, List.foldlM_cons, bind_eq_ok] at h
    obtain ⟨f', hstep, hrest⟩ := h
    rw [List.forall_mem_cons] at hs
    rw [ih hs.2 hrest, read_of_take hs.1 hstep]

theorem spares_writeSteps {name other : String} (h : other ≠ name) (text : String) :
    ∀ step ∈ writeSteps other text, Spares name step := by
  intro step hs
  rcases List.mem_cons.mp hs with rfl | hs
  · exact h
  · obtain ⟨c, -, rfl⟩ := List.mem_map.mp hs
    exact h

end Folder

namespace FileStore

/-! ### The name of the draft -/

/-- No file is written under its own name: the new extension has a point in it, and the old one,
behind the last point, has none. -/
theorem draftName_ne (file : String) : draftName file ≠ file := by
  intro he
  have hlist : (stem file).toList ++ ".json.tmp".toList = file.toList := by
    rw [← String.toList_append]
    exact congrArg String.toList he
  rw [stem] at hlist
  split at hlist
  · -- Nothing was taken away, and so the draft has the longer name.
    have := congrArg List.length hlist
    simp at this
  · have := congrArg List.length hlist
    simp at this
  · rename_i dot front _ hdrop
    have hpath := List.takeWhile_append_dropWhile (p := fun c : Char => decide (c ≠ '/'))
      (l := file.toList.reverse)
    have hname := List.takeWhile_append_dropWhile (p := fun c : Char => decide (c ≠ '.'))
      (l := file.toList.reverse.takeWhile fun c => decide (c ≠ '/'))
    have hplain := List.all_takeWhile (p := fun c : Char => decide (c ≠ '.'))
      (l := file.toList.reverse.takeWhile fun c => decide (c ≠ '/'))
    rw [hdrop] at hname
    rw [← hname] at hpath
    generalize file.toList.reverse.dropWhile (fun c => decide (c ≠ '/')) = folder at hpath hlist
    -- Written backwards, the old extension stands in front of the last point.
    generalize (file.toList.reverse.takeWhile fun c => decide (c ≠ '/')).takeWhile
      (fun c => decide (c ≠ '.')) = ext at hpath hplain
    have hsame : ['p', 'm', 't', '.', 'n', 'o', 's', 'j'] ++ ['.'] = ext ++ [dot] := by
      refine (List.append_left_inj (front ++ folder)).mp ?_
      have hback := congrArg List.reverse hlist
      rw [← hpath] at hback
      simpa using hback
    have hdots : ext = ['p', 'm', 't', '.', 'n', 'o', 's', 'j'] :=
      (List.append_inj' hsame rfl).1.symm
    rw [hdots] at hplain
    exact absurd hplain (by decide)

/-! ### Puts that stop -/

/-- The steps in which a file is written anew: those of the draft, and the one that puts it in the
place of the file. -/
def flushSteps (file : String) (values : KeyMap Json) : List FolderStep :=
  Folder.writeSteps (draftName file) (document values) ++ [.rename (draftName file) file]

theorem takeAll_flushSteps (folder : Folder) (file : String) (values : KeyMap Json) :
    folder.takeAll (flushSteps file values) =
      folder.write (draftName file) (document values) >>= fun drafted =>
        drafted.rename (draftName file) file := by
  have hlast (drafted : Folder) : drafted.takeAll [.rename (draftName file) file] =
      drafted.rename (draftName file) file := bind_pure _
  rw [flushSteps, Folder.takeAll_append, Folder.takeAll_writeSteps]
  simp only [hlast]

/-- Until the last step is taken, the file is as it was, and then it is the new one. -/
theorem read_of_stopped {folder stopped : Folder} {file : String} {values : KeyMap Json}
    {taken rest : List FolderStep} (hs : flushSteps file values = taken ++ rest)
    (h : folder.takeAll taken = .ok stopped) :
    (rest ≠ [] → stopped.read file = folder.read file) ∧
      (rest = [] → stopped.read file = .ok (document values)) := by
  constructor
  · intro hrest
    -- What was taken of the steps is all about the draft.
    have hdraft : taken <+: Folder.writeSteps (draftName file) (document values) := by
      have hlast := List.dropLast_concat_getLast hrest
      rw [flushSteps, ← hlast, ← List.append_assoc] at hs
      exact ⟨rest.dropLast, ((List.append_inj' hs rfl).1).symm⟩
    refine Folder.read_of_takeAll (fun step hm => ?_) h
    exact Folder.spares_writeSteps (draftName_ne file) _ step (hdraft.subset hm)
  · intro hrest
    rw [hrest, List.append_nil] at hs
    rw [← hs, takeAll_flushSteps, bind_eq_ok] at h
    obtain ⟨drafted, hwrite, hrename⟩ := h
    exact Folder.read_of_rename (Folder.read_of_write hwrite) hrename

/-- What a put can come to on a disk that may fail at any step. The value is in the program from
the beginning, and of the steps some first ones are taken; only all of them are a success. -/
inductive Attempt (s : FileStore) (key : String) (v : Json) : FileStore → Option Fault → Prop
  | done {folder : Folder}
      (h : s.folder.takeAll (flushSteps s.file (s.values.insert key v)) = .ok folder) :
      Attempt s key v ⟨folder, s.file, s.values.insert key v⟩ none
  | failed {folder : Folder} {taken rest : List FolderStep} (fault : Fault)
      (hs : flushSteps s.file (s.values.insert key v) = taken ++ rest) (hrest : rest ≠ [])
      (h : s.folder.takeAll taken = .ok folder) :
      Attempt s key v ⟨folder, s.file, s.values.insert key v⟩ (some fault)

/-- Puts one after the other, some of which fail. -/
inductive Attempts (s₀ : FileStore) : List (String × Json) → FileStore → Prop
  | refl : Attempts s₀ [] s₀
  | attempt {puts : List (String × Json)} {s s' : FileStore} {key : String} {v : Json}
      {fault : Option Fault} (h : Attempts s₀ puts s) (hp : s.Attempt key v s' fault) :
      Attempts s₀ (puts ++ [(key, v)]) s'

theorem Attempt.state {s s' : FileStore} {key : String} {v : Json} {fault : Option Fault}
    (h : s.Attempt key v s' fault) :
    s'.file = s.file ∧ s'.values = s.values.insert key v := by
  cases h with
  | done h => exact ⟨rfl, rfl⟩
  | failed fault hs hrest h => exact ⟨rfl, rfl⟩

theorem Attempt.read_of_failed {s s' : FileStore} {key : String} {v : Json} {fault : Fault}
    (h : s.Attempt key v s' (some fault)) : s'.folder.read s.file = s.folder.read s.file := by
  cases h with
  | failed fault hs hrest h => exact (read_of_stopped hs h).1 hrest

theorem Attempt.read_of_done {s s' : FileStore} {key : String} {v : Json}
    (h : s.Attempt key v s' none) : s'.folder.read s.file = .ok (document s'.values) := by
  cases h with
  | done h => exact (read_of_stopped (List.append_nil _).symm h).2 rfl

/-- Whether puts fail or not, the store has the last values that were put. -/
theorem Attempts.get? {s₀ s : FileStore} {puts : List (String × Json)} (h : Attempts s₀ puts s)
    (key : String) : s.values.get? key = (lastPut puts key).or (s₀.values.get? key) := by
  induction h with
  | refl => rfl
  | @attempt puts s s' key' v fault _ hp ih =>
    rw [hp.state.2, KeyMap.get?_insert, lastPut_append, ih]
    split
    · rfl
    · rfl

/-- What a put does in a folder that allows or refuses each of its steps is one of the things that
it can come to. -/
theorem attempt_of_put {s s' : FileStore} {key : String} {v : Json} {fault : Option Fault}
    (h : s.put key v = (s', fault)) : s.Attempt key v s' fault := by
  rw [put, flush] at h
  have hsteps := Folder.takeAll_writeSteps s.folder (draftName s.file)
    (document (s.values.insert key v))
  cases hwrite : s.folder.write (draftName s.file) (document (s.values.insert key v)) with
  | error refused =>
    -- The draft was refused, and nothing was done.
    rw [hwrite] at h
    obtain ⟨rfl, rfl⟩ := Prod.mk.inj h
    exact .failed _ (List.nil_append _).symm (by simp [flushSteps]) rfl
  | ok drafted =>
    rw [hwrite] at h hsteps
    dsimp only at h
    cases hrename : drafted.rename (draftName s.file) s.file with
    | error refused =>
      rw [hrename] at h
      obtain ⟨rfl, rfl⟩ := Prod.mk.inj h
      exact .failed _ rfl (by simp) hsteps
    | ok done =>
      rw [hrename] at h
      obtain ⟨rfl, rfl⟩ := Prod.mk.inj h
      refine .done ?_
      rw [takeAll_flushSteps, hwrite]
      exact hrename

/-- A put never damages the state file, whatever was put before and whichever puts have failed.

* At whatever step it stops, the file is the one that was there, or, after the last step, the whole
  new one.
* A put that fails leaves the file as it was.
* A put that succeeds writes all values that were put so far, whether they could be written then or
  not, over those that the store had at the beginning.
* What `put` does is such a put. -/
theorem file_is_whole_at_every_step {s₀ s : FileStore} {puts : List (String × Json)}
    (h : Attempts s₀ puts s) (key : String) (v : Json) :
    (∀ taken rest stopped, flushSteps s.file (s.values.insert key v) = taken ++ rest →
      s.folder.takeAll taken = .ok stopped →
        (rest ≠ [] → stopped.read s.file = s.folder.read s.file) ∧
        (rest = [] → stopped.read s.file = .ok (document (s.values.insert key v)))) ∧
    (∀ s' fault, s.Attempt key v s' (some fault) →
      s'.folder.read s.file = s.folder.read s.file) ∧
    (∀ s', s.Attempt key v s' none →
      s'.folder.read s.file = .ok (document s'.values) ∧
        ∀ key', s'.values.get? key' =
          (lastPut (puts ++ [(key, v)]) key').or (s₀.values.get? key')) ∧
    ∀ s' fault, s.put key v = (s', fault) → s.Attempt key v s' fault := by
  refine ⟨fun taken rest stopped hs ht => read_of_stopped hs ht,
    fun s' fault ha => ha.read_of_failed, fun s' ha => ?_, fun s' fault hp => attempt_of_put hp⟩
  exact ⟨ha.read_of_done, (h.attempt ha).get?⟩

/-- A put that fails while its draft is written, and one that succeeds afterwards. -/
theorem whole_after_a_broken_put :
    ∃ s s', Attempts blank [("view", .string "grid")] s ∧
      s.folder.read "state.json" = .error .missing ∧
      s.put "time" (.ofNat 45) = (s', none) ∧
      s'.folder.read "state.json" = .ok (document s'.values) ∧
      s'.values.get? "view" = some (.string "grid") ∧
      s'.values.get? "time" = some (.ofNat 45) := by
  -- The disk is full after the first character of the draft.
  let values := blank.values.insert "view" (.string "grid")
  let folder : Folder := ⟨true, KeyMap.empty.insert "state.json.tmp" (.file "\x7b")⟩
  have hfirst : (flushSteps blank.file values).take 2 =
      [.create "state.json.tmp", .append "state.json.tmp" '\x7b'] := by decide +kernel
  have hrest : (flushSteps blank.file values).drop 2 ≠ [] := by decide +kernel
  have hsteps := (List.take_append_drop 2 (flushSteps blank.file values)).symm
  rw [hfirst] at hsteps
  have hbroken : blank.Attempt "view" (.string "grid") ⟨folder, blank.file, values⟩
      (some (.storage "No space left on device (os error 28)")) :=
    .failed _ hsteps hrest rfl
  have hputs := Attempts.refl.attempt hbroken
  -- Nothing is in the way of the next put.
  have hwritable : Writable ⟨folder, blank.file, values⟩ := ⟨rfl, by decide, by decide⟩
  obtain ⟨s', hput, -⟩ := hwritable.put "time" (.ofNat 45)
  obtain ⟨-, hfailed, hdone, hattempt⟩ := file_is_whole_at_every_step hputs "time" (.ofNat 45)
  obtain ⟨hread, hget⟩ := hdone s' (hattempt s' none hput)
  refine ⟨_, s', hputs, ?_, hput, hread, hget "view", hget "time"⟩
  exact (file_is_whole_at_every_step .refl "view" (.string "grid")).2.1 _ _ hbroken

end FileStore

end MinerFleet
