/-
What a file store has written is what it finds when it is opened again.

* `FileStore.Puts` — writes that succeed, one after the other;
* `FileStore.lastPut` — the last value that was put under a key;
* `FileStore.Fits` — no value is nested so deep that it would not be read back.

A store writes its values into one object, so that in the file each of them stands one level deeper
than when it was put. The reader refuses the whole file where one value is nested too deep:
`reopened` says what there is after the file is opened again, and `lost_on_reopening` is a value
that the reader accepts and that is gone afterwards, with all others.
-/
import Mathlib.Data.List.Induction
import MinerFleet.Store.File
import MinerFleet.Proofs.Json.Layout

namespace MinerFleet

/-! ### Files -/

/-- A file that was written is read as it was written. -/
theorem Folder.read_of_write {f f' : Folder} {name text : String}
    (h : f.write name text = .ok f') : f'.nodes.get? name = some (.file text) := by
  rw [write] at h
  split at h
  · cases h
  · split at h
    · cases h
    · rw [← Except.ok.inj h, KeyMap.get?_insert, if_pos rfl]

/-- A file keeps its text when it is renamed. -/
theorem Folder.read_of_rename {f f' : Folder} {old new text : String}
    (hold : f.nodes.get? old = some (.file text)) (h : f.rename old new = .ok f') :
    f'.read new = .ok text := by
  rw [rename, hold] at h
  simp only at h
  split at h
  · cases h
  · rw [← Except.ok.inj h, read, KeyMap.get?_insert, if_pos rfl]

namespace FileStore

theorem read_of_flush {folder folder' : Folder} {file : String} {values : KeyMap Json}
    (h : flush folder file values = (folder', none)) :
    folder'.read file = .ok (document values) := by
  rw [flush] at h
  split at h
  · cases (Prod.mk.inj h).2
  · rename_i drafted hw
    split at h
    · cases (Prod.mk.inj h).2
    · rename_i done hr
      rw [← (Prod.mk.inj h).1]
      exact Folder.read_of_rename (Folder.read_of_write hw) hr

/-! ### The values of a file -/

/-- The values of a text are normal, and nested one level less deep than the reader takes. -/
theorem valuesOf?_eq_some {text : String} {values : KeyMap Json}
    (h : valuesOf? text = some values) :
    ∀ e ∈ values.entries, e.2.Normal ∧ e.2.depth < Json.maxDepth := by
  rw [valuesOf?] at h
  split at h
  · rename_i fields ht
    obtain ⟨hnormal, hdepth⟩ := Json.ofText?_eq_some ht
    obtain ⟨m, rfl, hm⟩ := hnormal.object
    rw [← Option.some.inj h, KeyMap.ofList_entries]
    rw [Json.depth] at hdepth
    intro e he
    have hle := Json.fieldsDepth_le.mp (Nat.le_refl _) e he
    exact ⟨hm e he, by omega⟩
  · cases h

/-- No value is nested so deep that it would not be read back from a file. -/
def Fits (values : KeyMap Json) : Prop :=
  ∀ key v, values.get? key = some v → v.depth < Json.maxDepth

theorem fits_iff {values : KeyMap Json} :
    Fits values ↔ (Json.ofMap values).depth ≤ Json.maxDepth := by
  rw [Json.ofMap, Json.depth]
  constructor
  · intro h
    have hle : Json.fieldsDepth values.entries ≤ Json.maxDepth - 1 :=
      Json.fieldsDepth_le.mpr fun e he =>
        Nat.le_sub_one_of_lt (h e.1 e.2 (KeyMap.mem_entries.mp he))
    have hpos : 0 < Json.maxDepth := by decide
    omega
  · intro h key v hv
    have hle := Json.fieldsDepth_le.mp (Nat.le_refl _) _ (KeyMap.mem_entries.mpr hv)
    have hle : v.depth ≤ Json.fieldsDepth values.entries := hle
    omega

/-- The text of a file with some values holds exactly these, unless one is nested too deep. -/
theorem valuesOf?_document {values : KeyMap Json}
    (hv : ∀ key v, values.get? key = some v → v.Normal)
    (hn : ∀ key v, values.get? key = some v → ∀ n ∈ v.numbers, n.ReadBack) :
    (Fits values → valuesOf? (document values) = some values) ∧
      (¬ Fits values → valuesOf? (document values) = none) := by
  have hnormal : (Json.ofMap values).Normal :=
    Json.normal_ofMap fun e he => hv e.1 e.2 (KeyMap.mem_entries.mp he)
  have hback : ∀ n ∈ (Json.ofMap values).numbers, n.ReadBack := by
    intro n hm
    obtain ⟨e, he, hm⟩ := Json.mem_fieldsNumbers.mp hm
    exact hn e.1 e.2 (KeyMap.mem_entries.mp he) n hm
  have hread := Json.ofText?_pretty hnormal hback
  rw [fits_iff, valuesOf?, document, hread]
  constructor
  · intro h
    rw [if_pos h]
    exact congrArg some (KeyMap.ofList_entries values)
  · intro h
    rw [if_neg h]

/-! ### Writes -/

/-- Writes that succeed, one after the other. -/
inductive Puts (s₀ : FileStore) : List (String × Json) → FileStore → Prop
  | refl : Puts s₀ [] s₀
  | put {puts : List (String × Json)} {s s' : FileStore} {key : String} {v : Json}
      (h : Puts s₀ puts s) (hp : s.put key v = (s', none)) : Puts s₀ (puts ++ [(key, v)]) s'

/-- The last value that was put under a key. -/
def lastPut (puts : List (String × Json)) (key : String) : Option Json :=
  lookup key puts.reverse

theorem lastPut_append (puts : List (String × Json)) (key key' : String) (v : Json) :
    lastPut (puts ++ [(key, v)]) key' = if key = key' then some v else lastPut puts key' := by
  rw [lastPut, List.reverse_append]
  rfl

theorem mem_of_lastPut {puts : List (String × Json)} {key : String} {v : Json}
    (h : lastPut puts key = some v) : (key, v) ∈ puts :=
  List.mem_reverse.mp (mem_of_lookup h)

theorem put_eq {s s' : FileStore} {key : String} {v : Json} (h : s.put key v = (s', none)) :
    s'.file = s.file ∧ s'.values = s.values.insert key v ∧
      s'.folder.read s.file = .ok (document s'.values) := by
  rw [put] at h
  cases hf : flush s.folder s.file (s.values.insert key v) with
  | mk folder fault =>
    rw [hf] at h
    obtain ⟨rfl, rfl⟩ := Prod.mk.inj h
    exact ⟨rfl, rfl, read_of_flush hf⟩

/-- After some writes, a store has the last values that were put, and its file holds them. -/
theorem Puts.state {s₀ s : FileStore} {puts : List (String × Json)} (h : Puts s₀ puts s) :
    s.file = s₀.file ∧
      (∀ key, s.values.get? key = (lastPut puts key).or (s₀.values.get? key)) ∧
      (s = s₀ ∨ s.folder.read s.file = .ok (document s.values)) := by
  induction h with
  | refl => exact ⟨rfl, fun key => rfl, .inl rfl⟩
  | @put puts s s' key v _ hp ih =>
    obtain ⟨hfile, hget, -⟩ := ih
    obtain ⟨hfile', hvalues, hread⟩ := put_eq hp
    refine ⟨hfile'.trans hfile, fun key' => ?_, .inr ?_⟩
    · rw [hvalues, KeyMap.get?_insert, lastPut_append, hget key']
      split
      · rfl
      · rfl
    · rw [hfile']
      exact hread

/-- Nothing is in the way of a file: its folder is there, and no folder has its name or the one
under which it is written first. -/
structure Writable (s : FileStore) : Prop where
  there : s.folder.there = true
  file : s.folder.nodes.get? s.file ≠ some .folder
  draft : s.folder.nodes.get? (draftName s.file) ≠ some .folder

theorem Folder.write_eq_ok {f : Folder} {name : String} (hthere : f.there = true)
    (hname : f.nodes.get? name ≠ some .folder) (text : String) :
    f.write name text = .ok { f with nodes := f.nodes.insert name (.file text) } := by
  rw [Folder.write, hthere, if_neg (by decide)]
  split
  · rename_i he
    exact absurd he hname
  · rfl

theorem Folder.rename_eq_ok {f : Folder} {old new : String} {node : Node}
    (hold : f.nodes.get? old = some node) (hnew : f.nodes.get? new ≠ some .folder) :
    f.rename old new = .ok { f with nodes := (f.nodes.erase old).insert new node } := by
  rw [Folder.rename, hold]
  dsimp only
  split
  · rename_i he
    exact absurd he hnew
  · rfl

/-- Where nothing is in the way, every value is put. -/
theorem Writable.put {s : FileStore} (h : s.Writable) (key : String) (v : Json) :
    ∃ s', s.put key v = (s', none) ∧ s'.Writable := by
  -- The document is written under another name first, and then renamed.
  have hwrite := Folder.write_eq_ok h.there h.draft (document (s.values.insert key v))
  generalize hdrafted : s.folder.nodes.insert (draftName s.file)
    (.file (document (s.values.insert key v))) = nodes at hwrite
  have hdraft : nodes.get? (draftName s.file) =
      some (.file (document (s.values.insert key v))) := by
    rw [← hdrafted, KeyMap.get?_insert, if_pos rfl]
  have hfile : nodes.get? s.file ≠ some .folder := by
    rw [← hdrafted, KeyMap.get?_insert]
    split
    · nofun
    · exact h.file
  have hrename := Folder.rename_eq_ok (f := { s.folder with nodes }) hdraft hfile
  refine ⟨_, by rw [FileStore.put, flush, hwrite]; dsimp only; rw [hrename], ?_⟩
  constructor
  · exact h.there
  · dsimp only
    rw [KeyMap.get?_insert, if_pos rfl]
    nofun
  · dsimp only
    rw [KeyMap.get?_insert, KeyMap.get?_erase, if_pos rfl]
    split
    · nofun
    · nofun

/-- Where nothing is in the way, any values can be put. -/
theorem Writable.puts {s : FileStore} (h : s.Writable) (puts : List (String × Json)) :
    ∃ s', Puts s puts s' ∧ s'.Writable := by
  induction puts using List.reverseRecOn with
  | nil => exact ⟨s, .refl, h⟩
  | append_singleton puts p ih =>
    obtain ⟨s', hputs, h'⟩ := ih
    obtain ⟨s'', hput, h''⟩ := h'.put p.1 p.2
    exact ⟨s'', .put hputs hput, h''⟩

/-! ### Opening again -/

theorem openIn_eq_ok {folder : Folder} {file : String} {s : FileStore} {log : List LogEvent}
    (h : openIn folder file = .ok (s, log)) :
    s.folder = folder ∧ s.file = file ∧
      ∀ key v, s.values.get? key = some v → v.Normal ∧ v.depth < Json.maxDepth := by
  have hempty : ∀ key v, (KeyMap.empty : KeyMap Json).get? key = some v →
      v.Normal ∧ v.depth < Json.maxDepth := fun _ _ hv => nomatch hv
  rw [openIn] at h
  split at h
  · rename_i text _
    split at h
    · rename_i values hvalues
      obtain ⟨rfl, -⟩ := Prod.mk.inj (Except.ok.inj h)
      exact ⟨rfl, rfl, fun key v hv => valuesOf?_eq_some hvalues _ (KeyMap.mem_entries.mpr hv)⟩
    · obtain ⟨rfl, -⟩ := Prod.mk.inj (Except.ok.inj h)
      exact ⟨rfl, rfl, hempty⟩
  · obtain ⟨rfl, -⟩ := Prod.mk.inj (Except.ok.inj h)
    exact ⟨rfl, rfl, hempty⟩
  · cases h

/-- A file that can be read gives a store, empty where the file does not hold one. -/
theorem openIn_of_read {folder : Folder} {file text : String} (h : folder.read file = .ok text) :
    ∃ log, openIn folder file =
      .ok (⟨folder, file, (valuesOf? text).getD KeyMap.empty⟩, log) := by
  cases hv : valuesOf? text with
  | none => exact ⟨[.corruptFile file], by simp only [openIn, h, hv, Option.getD_none]⟩
  | some values => exact ⟨[], by simp only [openIn, h, hv, Option.getD_some]⟩

/-- What a file store has after it was opened, after some writes that all succeeded, and after its
file was opened again. The values that are put are normal, as all are that the reader accepts, and
so are arrays and objects of such values; numbers are read back.

* Where no value that was last put under its key is nested 127 levels deep or more, each key leads
  to the value that was last put under it, or else to the one that it led to from the beginning.
* Otherwise the reader refuses the file, and no key leads anywhere. -/
theorem reopened {folder : Folder} {file : String} {s₀ s : FileStore} {log₀ : List LogEvent}
    {puts : List (String × Json)} (hopen : openIn folder file = .ok (s₀, log₀))
    (hputs : Puts s₀ puts s) (hv : ∀ p ∈ puts, p.2.Normal)
    (hn : ∀ key v, Store.get? s key = some v → ∀ n ∈ v.numbers, n.ReadBack) :
    ∃ s' log, openIn s.folder file = .ok (s', log) ∧
      ((∀ key v, lastPut puts key = some v → v.depth < Json.maxDepth) →
        ∀ key, Store.get? s' key = (lastPut puts key).or (Store.get? s₀ key)) ∧
      ((∃ key v, lastPut puts key = some v ∧ Json.maxDepth ≤ v.depth) →
        ∀ key, Store.get? s' key = none) := by
  obtain ⟨rfl, rfl, h₀⟩ := openIn_eq_ok hopen
  obtain ⟨hfile, hget, rfl | hread⟩ := hputs.state
  · -- Nothing was written.
    refine ⟨s, log₀, hopen, fun _ => hget, ?_⟩
    rintro ⟨key, v, hlast, hdeep⟩
    have hs : s.values.get? key = some v := by
      rw [hget, hlast, Option.some_or]
    have := (h₀ key v hs).2
    omega
  · -- All values in the store were put, or have been read before, so that the file is read back
    -- unless a value is nested too deep; those that had been read are not.
    have hnormal : ∀ key v, s.values.get? key = some v → v.Normal := by
      intro key v hs
      rw [hget] at hs
      rcases Option.or_eq_some_iff.mp hs with hlast | ⟨-, hs⟩
      · exact hv _ (mem_of_lastPut hlast)
      · exact (h₀ key v hs).1
    have hfits : Fits s.values ↔ ∀ key v, lastPut puts key = some v → v.depth < Json.maxDepth := by
      constructor
      · intro h key v hlast
        refine h key v ?_
        rw [hget, hlast, Option.some_or]
      · intro h key v hs
        rw [hget] at hs
        rcases Option.or_eq_some_iff.mp hs with hlast | ⟨-, hs⟩
        · exact h key v hlast
        · exact (h₀ key v hs).2
    obtain ⟨hkept, hlost⟩ := valuesOf?_document hnormal hn
    obtain ⟨log, hagain⟩ := openIn_of_read hread
    rw [hfile] at hagain
    refine ⟨_, log, hagain, fun h key => ?_, ?_⟩
    · rw [hkept (hfits.mpr h)]
      exact hget key
    · rintro ⟨key, v, hlast, hdeep⟩ key'
      have hnot : ¬ Fits s.values := fun h => by
        have := hfits.mp h key v hlast
        omega
      rw [hlost hnot]
      rfl

/-- A store over a file that is not there yet. -/
def blank : FileStore :=
  ⟨default, "state.json", KeyMap.empty⟩

theorem openIn_blank : openIn default "state.json" = .ok (blank, [.newFile "state.json"]) := rfl

theorem writable_blank : blank.Writable :=
  ⟨rfl, nofun, nofun⟩

/-- Two values that were put under one key, and one under another. -/
theorem reopened_after_three :
    let puts := [("view", .string "grid"), ("time", .ofNat 45), ("view", .string "list")]
    ∃ s s' log, Puts blank puts s ∧ openIn s.folder "state.json" = .ok (s', log) ∧
      Store.get? s' "view" = some (.string "list") ∧ Store.get? s' "time" = some (.ofNat 45) := by
  intro puts
  have hall : ∀ p ∈ puts, p.2.Normal ∧ p.2.depth = 0 ∧ ∀ n ∈ p.2.numbers, n = .int 45 := by
    intro p hp
    simp only [puts, List.mem_cons, List.not_mem_nil, or_false] at hp
    rcases hp with rfl | rfl | rfl
    · exact ⟨rfl, rfl, nofun⟩
    · exact ⟨rfl, rfl, fun n hn => List.mem_singleton.mp hn⟩
    · exact ⟨rfl, rfl, nofun⟩
  obtain ⟨s, hputs, -⟩ := writable_blank.puts puts
  have hn : ∀ key v, Store.get? s key = some v → ∀ n ∈ v.numbers, n.ReadBack := by
    intro key v hget n hm
    have hlast : lastPut puts key = some v := by
      rw [← hget]
      exact ((hputs.state.2.1 key).trans (Option.or_none)).symm
    rw [(hall _ (mem_of_lastPut hlast)).2.2 n hm]
    rfl
  obtain ⟨s', log, hopen, hkept, -⟩ :=
    reopened openIn_blank hputs (fun p hp => (hall p hp).1) hn
  have hfits : ∀ key v, lastPut puts key = some v → v.depth < Json.maxDepth := by
    intro key v hlast
    have hzero : v.depth = 0 := (hall _ (mem_of_lastPut hlast)).2.1
    rw [hzero]
    decide
  exact ⟨s, s', log, hputs, hopen, hkept hfits "view", hkept hfits "time"⟩

/-- Arrays in arrays, so many of them. -/
def nested : Nat → Json
  | 0 => .array []
  | n + 1 => .array [nested n]

theorem depth_nested (n : Nat) : (nested n).depth = n + 1 := by
  induction n with
  | zero => rfl
  | succ n ih =>
    rw [nested, Json.depth, Json.itemsDepth, ih]
    rfl

theorem numbers_nested (n : Nat) : (nested n).numbers = [] := by
  induction n with
  | zero => rfl
  | succ n ih =>
    rw [nested, Json.numbers, Json.itemsNumbers, ih]
    rfl

theorem normal_nested (n : Nat) : (nested n).Normal := by
  induction n with
  | zero => rfl
  | succ n ih => exact Json.normal_array fun v hv => List.mem_singleton.mp hv ▸ ih

/-- A value that the reader accepts is put, and is gone when the file is opened again. -/
theorem lost_on_reopening :
    Json.ofText? (nested 126).pretty = some (nested 126) ∧
    ∃ s, blank.put "deep" (nested 126) = (s, none) ∧
      ∃ s' log, openIn s.folder "state.json" = .ok (s', log) ∧ Store.get? s' "deep" = none := by
  have hback : ∀ n ∈ (nested 126).numbers, n.ReadBack := by
    rw [numbers_nested]
    exact fun n hn => absurd hn List.not_mem_nil
  have hdepth : (nested 126).depth = 127 := depth_nested 126
  constructor
  · rw [Json.ofText?_pretty (normal_nested 126) hback, hdepth]
    rfl
  · obtain ⟨s, hput, -⟩ := writable_blank.put "deep" (nested 126)
    obtain ⟨-, hvalues, hread⟩ := put_eq hput
    have hget : ∀ key v, s.values.get? key = some v → key = "deep" ∧ v = nested 126 := by
      intro key v hs
      rw [hvalues, KeyMap.get?_insert] at hs
      split at hs
      · rename_i hkey
        exact ⟨hkey.symm, (Option.some.inj hs).symm⟩
      · cases hs
    have hnot : ¬ Fits s.values := by
      intro h
      have hlt := h "deep" (nested 126) (by rw [hvalues, KeyMap.get?_insert, if_pos rfl])
      rw [hdepth] at hlt
      exact Nat.lt_irrefl _ hlt
    have hlost := (valuesOf?_document (fun key v hs => (hget key v hs).2 ▸ normal_nested 126)
      (fun key v hs => (hget key v hs).2 ▸ hback)).2 hnot
    obtain ⟨log, hagain⟩ := openIn_of_read hread
    rw [hlost] at hagain
    exact ⟨s, hput, _, log, hagain, rfl⟩

end FileStore

end MinerFleet
