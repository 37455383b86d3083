import Mathlib.Data.List.Sort
import Mathlib.Data.List.Infix
import Mathlib.Data.List.Nodup
import Mathlib.Data.String.Basic

namespace Solvio.Storage.Engine

/-! ### A set and its manifest -/

/-- One of the `files` of a tree. -/
structure FileEntry (H : Type) where
  rel : String
  sha256 : H

/-- An entry of a manifest, by its kind. -/
inductive Entry (H : Type) where
  | sqlite (name dest : String) (sha256 : H)
  | file (name dest : String) (sha256 : H)
  | tree (name dest : String) (files : List (FileEntry H))
  | bundle (name dest : String) (sha256 refsDigest : H)

/-- The files of a directory, by the number of their blocks. Hard links share it. -/
abbrev Files : Type := List (String × Nat)

/-- A finished set. Its manifest may have become unreadable. -/
structure SetDir (H : Type) where
  name : String
  files : Files
  manifest : Option (List (Entry H))

/-- The disk: what its blocks hold, and the finished sets. -/
structure Volume (B H : Type) where
  blocks : List B
  sets : List (SetDir H)

variable {B H : Type}

/-- `os.path.join`. -/
def join (dest rel : String) : String := dest ++ "/" ++ rel

/-- The files that an entry names, and their checksums. -/
def Entry.recorded : Entry H → List (String × H)
  | .sqlite _ dest sha256 => [(dest, sha256)]
  | .file _ dest sha256 => [(dest, sha256)]
  | .tree _ dest files => files.map (fun f => (join dest f.rel, f.sha256))
  | .bundle _ dest sha256 _ => [(dest, sha256)]

def SetDir.recorded (s : SetDir H) : List (String × H) :=
  (s.manifest.getD []).flatMap Entry.recorded

def contentAt (blocks : List B) (files : Files) (path : String) : Option B :=
  (files.lookup path).bind (fun i => blocks[i]?)

section Run

variable [DecidableEq H] (digest : B → H)

/-! ### `verify_set` -/

def check (blocks : List B) (files : Files) (path label : String) (sha256 : H) : List String :=
  match contentAt blocks files path with
  | none => [label ++ ": fehlt"]
  | some b => if digest b = sha256 then [] else [label ++ ": Pruefsumme"]

def Entry.errors (blocks : List B) (files : Files) : Entry H → List String
  | .sqlite name dest sha256 => check digest blocks files dest name sha256
  | .file name dest sha256 => check digest blocks files dest name sha256
  | .tree name dest entries => entries.flatMap (fun f =>
      check digest blocks files (join dest f.rel) (name ++ "/" ++ f.rel) f.sha256)
  | .bundle name dest sha256 _ => check digest blocks files dest name sha256

/-- What `verify_set` reports. -/
structure Verified where
  ok : Bool
  errors : List String
  checked : Nat

def verifySet (blocks : List B) (s : SetDir H) : Verified :=
  match s.manifest with
  | none => ⟨false, ["Manifest unbrauchbar"], 0⟩
  | some entries =>
    let errors := entries.flatMap (Entry.errors digest blocks s.files)
    ⟨errors.isEmpty, errors, s.recorded.length⟩

/-! ### The linker -/

/-- Where the linker finds a content: in the previous set, or in its own. -/
inductive Place where
  | previous (path : String)
  | own (path : String)

/-- A run at work: `.incoming-<id>` and the index of the linker. -/
structure Work (B H : Type) where
  blocks : List B
  incoming : Files
  index : List (H × Place)

/-- A file of the source: its content when it is hashed, what a copy of it makes or
leaves behind, and whether the disk can link. -/
structure Source (B : Type) where
  hashed : B
  copied : Except (Option B) B
  linkable : Bool

/-- `dict.setdefault`. -/
def setDefault (index : List (H × Place)) (sha256 : H) (place : Place) : List (H × Place) :=
  if (index.lookup sha256).isSome then index else index ++ [(sha256, place)]

/-- `_Linker.from_previous`. -/
def fromPrevious (previous : Option (SetDir H)) : List (H × Place) :=
  (previous.elim [] SetDir.recorded).foldl (fun index f => setDefault index f.2 (.previous f.1)) []

def filesOf (previous : Option (SetDir H)) : Files := previous.elim [] SetDir.files

namespace Work

variable (w : Work B H)

def blockAt (previous : Files) : Place → Option Nat
  | .previous path => previous.lookup path
  | .own path => w.incoming.lookup path

/-- A file that is there is written through to its blocks, whoever shares them. -/
def write (path : String) (b : B) : Work B H :=
  match w.incoming.lookup path with
  | some i => { w with blocks := w.blocks.set i b }
  | none => { w with
      blocks := w.blocks ++ [b]
      incoming := (path, w.blocks.length) :: w.incoming }

def remove (path : String) : Work B H :=
  { w with incoming := w.incoming.filter (fun f => f.1 ≠ path) }

/-- `os.link`, which wants its place free. -/
def link (path : String) (i : Nat) : Option (Work B H) :=
  if (w.incoming.lookup path).isSome then none
  else some { w with incoming := (path, i) :: w.incoming }

/-- A new file, or what is left of it. -/
def make (path : String) : Except (Option B) B → Option B × Work B H
  | .ok b => (some b, (w.remove path).write path b)
  | .error none => (none, w)
  | .error (some b) => (none, (w.remove path).write path b)

/-- `_Linker.place`, and whether it came back. -/
def place (previous : Files) (path : String) (s : Source B) : Bool × Work B H :=
  match (if s.linkable then ((w.index.lookup (digest s.hashed)).bind
      (w.blockAt previous)).bind (w.link path) else none) with
  | some linked => (true, linked)
  | none =>
    match s.copied with
    | .ok b => (true, { w.write path b with
        index := setDefault w.index (digest s.hashed) (.own path) })
    | .error none => (false, w)
    | .error (some b) => (false, w.write path b)

end Work

/-- `_copy_tree`: the files in the order of the walk. -/
def copyTree (previous : Files) (dest : String) :
    Work B H → List (String × Source B) → Option (List (FileEntry H)) × Work B H
  | w, [] => (some [], w)
  | w, (rel, s) :: rest =>
    match w.place digest previous (join dest rel) s with
    | (false, w') => (none, w')
    | (true, w') =>
      let r := copyTree previous dest w' rest
      (r.1.map (fun files => ⟨rel, digest s.hashed⟩ :: files), r.2)

/-! ### A run -/

/-- An item whose source is there, and what the outside makes of it. `broken` is
a walk that fails after these files. -/
inductive Item (B H : Type) where
  | sqlite (name dest : String) (copied : Except (Option B) B)
  | file (name dest : String) (source : Source B)
  | tree (name dest : String) (files : List (String × Source B)) (broken : Bool)
  | bundle (name dest : String) (refs : H) (linkable : Bool) (made : Except (Option B) B)

/-- The bundle that this entry is, if it is of these references. -/
def Entry.bundleOf (name : String) (refs : H) : Entry H → Option (String × H)
  | .bundle name' dest sha256 refs' =>
    if name' = name ∧ refs' = refs then some (dest, sha256) else none
  | _ => none

/-- `_reuse_bundle`: linked, and hashed again. -/
def reuseBundle (previous : Option (SetDir H)) (w : Work B H) (name : String) (refs : H)
    (dest : String) (linkable : Bool) : Option (H × Work B H) := do
  let s ← previous
  let entries ← s.manifest
  let found ← entries.findSome? (Entry.bundleOf name refs)
  let i ← s.files.lookup found.1
  guard linkable
  let linked ← w.link dest i
  let b ← w.blocks[i]?
  guard (digest b = found.2)
  return (digest b, linked)

def perform (previous : Option (SetDir H)) (w : Work B H) :
    Item B H → Option (Entry H) × Work B H
  | .sqlite name dest copied =>
    let r := (w.remove dest).make dest copied
    (r.1.map (fun b => .sqlite name dest (digest b)), r.2)
  | .file name dest source =>
    let r := w.place digest (filesOf previous) dest source
    (if r.1 then some (.file name dest (digest source.hashed)) else none, r.2)
  | .tree name dest files broken =>
    let r := copyTree digest (filesOf previous) dest w files
    (if broken then none else r.1.map (.tree name dest), r.2)
  | .bundle name dest refs linkable made =>
    match reuseBundle digest previous w name refs dest linkable with
    | some r => (some (.bundle name dest r.1 refs), r.2)
    | none =>
      let r := w.make dest made
      (r.1.map (fun b => .bundle name dest (digest b) refs), r.2)

/-- The loop over the items. -/
def workOn (previous : Option (SetDir H)) : Work B H → List (Item B H) → List (Entry H) × Work B H
  | w, [] => ([], w)
  | w, item :: items =>
    let r := perform digest previous w item
    let rest := workOn previous r.2 items
    (r.1.toList ++ rest.1, rest.2)

variable (v : Volume B H)

/-- The last of `list_sets`. -/
def Volume.previous : Option (SetDir H) :=
  (((v.sets.map SetDir.name).insertionSort (· ≤ ·)).getLast?).bind
    (fun name => v.sets.find? (fun s => s.name = name))

def Volume.begin : Work B H := ⟨v.blocks, [], fromPrevious v.previous⟩

/-- The set of a run that comes to its end. -/
def newSet (id : String) (items : List (Item B H)) : SetDir H :=
  let r := workOn digest v.previous v.begin items
  ⟨id, r.2.incoming, some r.1⟩

/-- `_run_backup_locked`: a set of the same id makes room. -/
def runBackup (id : String) (items : List (Item B H)) : Volume B H :=
  ⟨(workOn digest v.previous v.begin items).2.blocks,
    v.sets.filter (fun s => s.name ≠ id) ++ [newSet digest v id items]⟩

/-! ### The history of a disk -/

/-- A run that ends, a run that is cut off, sets that are removed. -/
inductive Event (B H : Type) where
  | run (id : String) (items : List (Item B H))
  | crash (items : List (Item B H))
  | prune (names : List String)

def step (v : Volume B H) : Event B H → Volume B H
  | .run id items => runBackup digest v id items
  | .crash items => { v with blocks := (workOn digest v.previous v.begin items).2.blocks }
  | .prune names => { v with sets := v.sets.filter (fun s => s.name ∉ names) }

def history (events : List (Event B H)) : Volume B H := events.foldl (step digest) ⟨[], []⟩

end Run

/-! ### What a run touches -/

/-- The files that an item puts into the new set. -/
def Item.paths : Item B H → List String
  | .sqlite _ dest _ => [dest]
  | .file _ dest _ => [dest]
  | .tree _ dest files _ => files.map (fun f => join dest f.1)
  | .bundle _ dest _ _ _ => [dest]

/-- Blocks that are there stay, files too, and only these are new. -/
structure Grows (paths : List String) (w w' : Work B H) : Prop where
  blocks : w.blocks <+: w'.blocks
  kept : ∀ {p : String} {i : Nat}, w.incoming.lookup p = some i → w'.incoming.lookup p = some i
  free : ∀ {p : String}, p ∉ paths → w.incoming.lookup p = none → w'.incoming.lookup p = none

section Growing

variable {w w' w'' : Work B H} {paths more : List String} {path : String}

theorem Grows.rfl' : Grows paths w w := ⟨List.prefix_refl _, id, fun _ => id⟩

theorem Grows.trans (h : Grows paths w w') (h' : Grows more w' w'') :
    Grows (paths ++ more) w w'' where
  blocks := h.blocks.trans h'.blocks
  kept hp := h'.kept (h.kept hp)
  free hp hfree := h'.free (fun hin => hp (List.mem_append_right _ hin))
    (h.free (fun hin => hp (List.mem_append_left _ hin)) hfree)

theorem lookup_put {files : Files} {p : String} {n : Nat} (hne : p ≠ path) :
    List.lookup p ((path, n) :: files) = files.lookup p := by
  have hkey : (p == path) = false := beq_eq_false_iff_ne.mpr hne
  rw [List.lookup_cons, hkey]

/-- A file in a free place hides no other. -/
theorem put_grows {n : Nat} (hfree : w.incoming.lookup path = none)
    (hblocks : w.blocks <+: w'.blocks) (hput : w'.incoming = (path, n) :: w.incoming) :
    Grows [path] w w' where
  blocks := hblocks
  kept {p i} hp := by
    rw [hput, lookup_put, hp]
    rintro rfl
    rw [hfree] at hp
    cases hp
  free {p} hp hnone := by
    rw [hput, lookup_put, hnone]
    exact fun h => hp (List.mem_singleton.mpr h)

theorem write_grows (hfree : w.incoming.lookup path = none) (b : B) :
    Grows [path] w (w.write path b) := by
  simp only [Work.write, hfree]
  exact put_grows hfree (List.prefix_append _ _) rfl

theorem link_grows {i : Nat} (h : w.link path i = some w') : Grows [path] w w' := by
  unfold Work.link at h
  split at h
  · cases h
  rename_i hfree
  obtain rfl := Option.some.inj h
  exact put_grows (Option.not_isSome_iff_eq_none.mp hfree) (List.prefix_refl _) rfl

theorem remove_free (hfree : w.incoming.lookup path = none) : w.remove path = w := by
  have hall : w.incoming.filter (fun f => f.1 ≠ path) = w.incoming := by
    apply List.filter_eq_self.mpr
    intro f hf
    have hne := bne_iff_ne.mp (List.lookup_eq_none_iff.mp hfree f hf)
    exact decide_eq_true hne.symm
  rw [Work.remove, hall]

theorem make_grows (hfree : w.incoming.lookup path = none) (copied : Except (Option B) B) :
    Grows [path] w (w.make path copied).2 := by
  cases copied with
  | ok b =>
    rw [Work.make, remove_free hfree]
    exact write_grows hfree b
  | error left =>
    cases left with
    | none => exact .rfl'
    | some b =>
      rw [Work.make, remove_free hfree]
      exact write_grows hfree b

variable [DecidableEq H] (digest : B → H)

/-- Linked to what the index names, copied, or broken off. -/
theorem place_cases (previous : Files) (w : Work B H) (path : String) (s : Source B) :
    (∃ found i linked, w.index.lookup (digest s.hashed) = some found ∧
      w.blockAt previous found = some i ∧ w.link path i = some linked ∧
      w.place digest previous path s = (true, linked)) ∨
    (∃ b, s.copied = .ok b ∧ w.place digest previous path s = (true, { w.write path b with
      index := setDefault w.index (digest s.hashed) (.own path) })) ∨
    w.place digest previous path s = (false, w) ∨
    ∃ b, w.place digest previous path s = (false, w.write path b) := by
  unfold Work.place
  split
  · rename_i linked hlinked
    split at hlinked
    · obtain ⟨i, hi, hlink⟩ := Option.bind_eq_some_iff.mp hlinked
      obtain ⟨found, hfound, hi⟩ := Option.bind_eq_some_iff.mp hi
      exact .inl ⟨found, i, linked, hfound, hi, hlink, rfl⟩
    · cases hlinked
  · split
    · rename_i b hb
      exact .inr (.inl ⟨b, hb, rfl⟩)
    · exact .inr (.inr (.inl rfl))
    · rename_i b _
      exact .inr (.inr (.inr ⟨b, rfl⟩))

theorem place_grows (previous : Files) (s : Source B) (hfree : w.incoming.lookup path = none) :
    Grows [path] w (w.place digest previous path s).2 := by
  rcases place_cases digest previous w path s with
    ⟨_, _, linked, -, -, hlink, heq⟩ | ⟨b, -, heq⟩ | heq | ⟨b, heq⟩
  · rw [heq]
    exact link_grows hlink
  · rw [heq]
    have h := write_grows hfree b
    exact ⟨h.blocks, h.kept, h.free⟩
  · rw [heq]
    exact .rfl'
  · rw [heq]
    exact write_grows hfree b

/-- `_copy_tree`, when its files are apart and not there yet. -/
theorem tree_grows (previous : Files) (dest : String) (files : List (String × Source B))
    (hapart : (files.map (fun f => join dest f.1)).Nodup)
    (hfree : ∀ p ∈ files.map (fun f => join dest f.1), w.incoming.lookup p = none) :
    Grows (files.map (fun f => join dest f.1)) w (copyTree digest previous dest w files).2 := by
  induction files generalizing w with
  | nil => exact .rfl'
  | cons f files ih =>
    obtain ⟨rel, s⟩ := f
    obtain ⟨hnew, hapart⟩ := List.nodup_cons.mp hapart
    have hplace := place_grows digest previous s (hfree _ (List.mem_cons_self ..))
    rw [copyTree]
    generalize w.place digest previous (join dest rel) s = r at hplace ⊢
    obtain ⟨done, w'⟩ := r
    cases done with
    | false =>
      refine ⟨hplace.blocks, hplace.kept, fun hp => hplace.free (fun hin => hp ?_)⟩
      rw [List.mem_singleton.mp hin]
      exact List.mem_cons_self ..
    | true =>
      refine hplace.trans (ih hapart
        (fun p hp => hplace.free ?_ (hfree p (List.mem_cons_of_mem _ hp))))
      intro hin
      rw [List.mem_singleton.mp hin] at hp
      exact hnew hp

theorem reuse_grows {previous : Option (SetDir H)} {name : String} {refs : H} {linkable : Bool}
    {r : H × Work B H} (h : reuseBundle digest previous w name refs path linkable = some r) :
    Grows [path] w r.2 := by
  unfold reuseBundle at h
  simp only [Option.bind_eq_bind, Option.bind_eq_some_iff, guard] at h
  obtain ⟨s, -, entries, -, found, -, i, -, -, -, linked, hlink, b, -, -, -, hr⟩ := h
  obtain rfl := Option.some.inj hr
  exact link_grows hlink

theorem perform_grows (previous : Option (SetDir H)) (item : Item B H)
    (hapart : item.paths.Nodup) (hfree : ∀ p ∈ item.paths, w.incoming.lookup p = none) :
    Grows item.paths w (perform digest previous w item).2 := by
  cases item with
  | sqlite name dest copied =>
    have hfree := hfree dest (List.mem_singleton_self dest)
    rw [perform, remove_free hfree]
    exact make_grows hfree copied
  | file name dest source =>
    exact place_grows digest _ source (hfree dest (List.mem_singleton_self dest))
  | tree name dest files broken => exact tree_grows digest _ dest files hapart hfree
  | bundle name dest refs linkable made =>
    rw [perform]
    split
    · rename_i r hr
      exact reuse_grows digest hr
    · exact make_grows (hfree dest (List.mem_singleton_self dest)) made

/-- The files of a run are apart, so it only ever writes new blocks. -/
theorem work_grows (previous : Option (SetDir H)) (items : List (Item B H))
    (hapart : (items.flatMap Item.paths).Nodup)
    (hfree : ∀ p ∈ items.flatMap Item.paths, w.incoming.lookup p = none) :
    Grows (items.flatMap Item.paths) w (workOn digest previous w items).2 := by
  induction items generalizing w with
  | nil => exact .rfl'
  | cons item items ih =>
    rw [List.flatMap_cons] at hapart hfree ⊢
    obtain ⟨hitem, hrest, hboth⟩ := List.nodup_append.mp hapart
    have hgrows := perform_grows digest previous item hitem
      (fun p hp => hfree p (List.mem_append_left _ hp))
    refine hgrows.trans (ih hrest
      (fun p hp => hgrows.free ?_ (hfree p (List.mem_append_right _ hp))))
    exact fun hin => hboth p hin p hp rfl

end Growing

/-! ### What a run records -/

section Recording

variable (digest : B → H)

/-- The source stays as it was hashed until it is copied. -/
def Source.Steady (s : Source B) : Prop := ∀ b, s.copied = .ok b → digest b = digest s.hashed

def Item.Steady : Item B H → Prop
  | .sqlite .. => True
  | .file _ _ source => source.Steady digest
  | .tree _ _ files _ => ∀ f ∈ files, f.2.Steady digest
  | .bundle .. => True

/-- The file has its checksum, or stands on blocks that `shared` vouches for. -/
def Holds (shared : Nat → H → Prop) (blocks : List B) (files : Files) (f : String × H) : Prop :=
  ∃ i b, files.lookup f.1 = some i ∧ blocks[i]? = some b ∧ (digest b = f.2 ∨ shared i f.2)

/-- What the linker may rely on. -/
structure Reliable (shared : Nat → H → Prop) (base : List B) (previous : Files)
    (w : Work B H) : Prop where
  base : base <+: w.blocks
  own : ∀ h p, (h, Place.own p) ∈ w.index → Holds digest shared w.blocks w.incoming (p, h)
  found : ∀ h p i, (h, Place.previous p) ∈ w.index → previous.lookup p = some i → shared i h

variable {digest} {shared : Nat → H → Prop} {base : List B} {previous : Files}
  {w w' : Work B H} {paths : List String} {path : String}

theorem block_kept {blocks blocks' : List B} (h : blocks <+: blocks') {i : Nat} {b : B}
    (hb : blocks[i]? = some b) : blocks'[i]? = some b := by
  obtain ⟨more, rfl⟩ := h
  rw [List.getElem?_append_left (List.getElem?_eq_some_iff.mp hb).1, hb]

theorem Holds.grows {f : String × H} (h : Holds digest shared w.blocks w.incoming f)
    (hg : Grows paths w w') : Holds digest shared w'.blocks w'.incoming f := by
  obtain ⟨i, b, hi, hb, hok⟩ := h
  exact ⟨i, b, hg.kept hi, block_kept hg.blocks hb, hok⟩

theorem Reliable.grows (h : Reliable digest shared base previous w) (hg : Grows paths w w')
    (hindex : w'.index = w.index) : Reliable digest shared base previous w' where
  base := h.base.trans hg.blocks
  own k p hp := (h.own k p (hindex ▸ hp)).grows hg
  found k p i hp := h.found k p i (hindex ▸ hp)

theorem mem_of_lookup {K A : Type} [DecidableEq K] {entries : List (K × A)} {k : K} {a : A}
    (h : entries.lookup k = some a) : (k, a) ∈ entries := by
  obtain ⟨first, rest, rfl, -⟩ := List.lookup_eq_some_iff.mp h
  exact List.mem_append_right _ (List.mem_cons_self ..)

theorem write_index (b : B) : (w.write path b).index = w.index := by
  unfold Work.write
  split <;> rfl

theorem link_index {i : Nat} (h : w.link path i = some w') : w'.index = w.index ∧
    w'.blocks = w.blocks ∧ w'.incoming.lookup path = some i := by
  unfold Work.link at h
  split at h
  · cases h
  · obtain rfl := Option.some.inj h
    exact ⟨rfl, rfl, List.lookup_cons_self⟩

theorem write_holds (hfree : w.incoming.lookup path = none) {b : B} {sha256 : H}
    (hb : digest b = sha256) :
    Holds digest shared (w.write path b).blocks (w.write path b).incoming (path, sha256) := by
  simp only [Work.write, hfree]
  exact ⟨w.blocks.length, b, List.lookup_cons_self, List.getElem?_concat_length, .inl hb⟩

theorem make_holds (hfree : w.incoming.lookup path = none) {copied : Except (Option B) B} {b : B}
    (h : (w.make path copied).1 = some b) :
    Holds digest shared (w.make path copied).2.blocks (w.make path copied).2.incoming
      (path, digest b) := by
  cases copied with
  | ok b' =>
    obtain rfl := Option.some.inj h
    rw [Work.make, remove_free hfree]
    exact write_holds hfree rfl
  | error left => cases left <;> cases h

theorem make_index (copied : Except (Option B) B) : (w.make path copied).2.index = w.index := by
  cases copied with
  | ok b => exact write_index b
  | error left =>
    cases left with
    | none => rfl
    | some b => exact write_index b

variable [DecidableEq H]

theorem mem_set_default {index : List (H × Place)} {sha256 : H} {place : Place} {e : H × Place}
    (h : e ∈ setDefault index sha256 place) : e ∈ index ∨ e = (sha256, place) := by
  unfold setDefault at h
  split at h
  · exact .inl h
  · exact (List.mem_append.mp h).imp_right List.mem_singleton.mp

theorem place_reliable (hshared : ∀ i h, shared i h → i < base.length)
    (h : Reliable digest shared base previous w) {s : Source B} (hs : s.Steady digest)
    (hfree : w.incoming.lookup path = none) :
    Reliable digest shared base previous (w.place digest previous path s).2 ∧
      ((w.place digest previous path s).1 = true →
        Holds digest shared (w.place digest previous path s).2.blocks
          (w.place digest previous path s).2.incoming (path, digest s.hashed)) := by
  rcases place_cases digest previous w path s with
    ⟨found, i, linked, hfound, hat, hlink, heq⟩ | ⟨b, hb, heq⟩ | heq | ⟨b, heq⟩
  · rw [heq]
    obtain ⟨hindex, hblocks, hnew⟩ := link_index hlink
    refine ⟨h.grows (link_grows hlink) hindex, fun _ => ?_⟩
    have hin := mem_of_lookup hfound
    rw [hblocks]
    cases found with
    | previous p =>
      have hi := h.found _ p i hin hat
      obtain ⟨more, hmore⟩ := h.base
      have hlt : i < w.blocks.length := by
        have := hshared i _ hi
        rw [← hmore, List.length_append]
        omega
      exact ⟨i, w.blocks[i], hnew, List.getElem?_eq_getElem hlt, .inr hi⟩
    | own p =>
      obtain ⟨j, b, hj, hb, hok⟩ := h.own _ p hin
      obtain rfl := Option.some.inj (hj.symm.trans hat)
      exact ⟨j, b, hnew, hb, hok⟩
  · rw [heq]
    have hg := write_grows hfree b
    have hnew : Holds digest shared (w.write path b).blocks (w.write path b).incoming
        (path, digest s.hashed) := write_holds hfree (hs b hb)
    refine ⟨⟨h.base.trans hg.blocks, fun k p hp => ?_, fun k p i hp => ?_⟩, fun _ => hnew⟩
    · rcases mem_set_default hp with hp | hp
      · have hown := (h.own k p hp).grows hg
        exact hown
      · cases hp
        exact hnew
    · rcases mem_set_default hp with hp | hp
      · exact h.found k p i hp
      · cases hp
  · rw [heq]
    exact ⟨h, fun hdone => by cases hdone⟩
  · rw [heq]
    exact ⟨h.grows (write_grows hfree b) (write_index b), fun hdone => by cases hdone⟩

theorem tree_reliable (hshared : ∀ i h, shared i h → i < base.length) (dest : String)
    (files : List (String × Source B)) (h : Reliable digest shared base previous w)
    (hsteady : ∀ f ∈ files, f.2.Steady digest)
    (hapart : (files.map (fun f => join dest f.1)).Nodup)
    (hfree : ∀ p ∈ files.map (fun f => join dest f.1), w.incoming.lookup p = none) :
    Reliable digest shared base previous (copyTree digest previous dest w files).2 ∧
      ∀ entries, (copyTree digest previous dest w files).1 = some entries → ∀ e ∈ entries,
        Holds digest shared (copyTree digest previous dest w files).2.blocks
          (copyTree digest previous dest w files).2.incoming (join dest e.rel, e.sha256) := by
  induction files generalizing w with
  | nil =>
    refine ⟨h, fun entries hentries e he => ?_⟩
    obtain rfl := Option.some.inj hentries
    cases he
  | cons f files ih =>
    obtain ⟨rel, s⟩ := f
    obtain ⟨hnew, hapart⟩ := List.nodup_cons.mp hapart
    have hone := hfree _ (List.mem_cons_self ..)
    have hgrows := place_grows digest previous s hone
    have hplace := place_reliable hshared h (hsteady _ (List.mem_cons_self ..)) hone
    rw [copyTree]
    generalize w.place digest previous (join dest rel) s = r at hgrows hplace ⊢
    obtain ⟨done, w'⟩ := r
    cases done with
    | false => exact ⟨hplace.1, fun entries hentries => by cases hentries⟩
    | true =>
      have hrest : ∀ p ∈ files.map (fun f => join dest f.1), w'.incoming.lookup p = none := by
        intro p hp
        apply hgrows.free _ (hfree p (List.mem_cons_of_mem _ hp))
        intro hin
        rw [List.mem_singleton.mp hin] at hp
        exact hnew hp
      have htree := tree_grows digest previous dest files hapart hrest
      obtain ⟨hr, hentries⟩ :=
        ih hplace.1 (fun f hf => hsteady f (List.mem_cons_of_mem _ hf)) hapart hrest
      refine ⟨hr, fun entries hall e he => ?_⟩
      obtain ⟨later, hlater, rfl⟩ := Option.map_eq_some_iff.mp hall
      rcases List.mem_cons.mp he with rfl | he
      · exact (hplace.2 rfl).grows htree
      · exact hentries later hlater e he

/-- A bundle that is shared was hashed again. -/
theorem reuse_reliable {s? : Option (SetDir H)} (h : Reliable digest shared base previous w)
    {name : String} {refs : H} {linkable : Bool} {r : H × Work B H}
    (hr : reuseBundle digest s? w name refs path linkable = some r) :
    Reliable digest shared base previous r.2 ∧
      Holds digest shared r.2.blocks r.2.incoming (path, r.1) := by
  have hgrows := reuse_grows digest hr
  unfold reuseBundle at hr
  simp only [Option.bind_eq_bind, Option.bind_eq_some_iff, guard] at hr
  obtain ⟨s, -, entries, -, found, -, i, -, -, -, linked, hlink, b, hb, -, -, hr⟩ := hr
  obtain rfl := Option.some.inj hr
  obtain ⟨hindex, hblocks, hnew⟩ := link_index hlink
  exact ⟨h.grows hgrows hindex, i, b, hnew, hblocks ▸ hb, .inl rfl⟩

theorem perform_reliable {s? : Option (SetDir H)} (hshared : ∀ i h, shared i h → i < base.length)
    (h : Reliable digest shared base (filesOf s?) w) {item : Item B H}
    (hsteady : item.Steady digest) (hapart : item.paths.Nodup)
    (hfree : ∀ p ∈ item.paths, w.incoming.lookup p = none) :
    Reliable digest shared base (filesOf s?) (perform digest s? w item).2 ∧
      ∀ e, (perform digest s? w item).1 = some e → ∀ f ∈ e.recorded,
        Holds digest shared (perform digest s? w item).2.blocks
          (perform digest s? w item).2.incoming f := by
  cases item with
  | sqlite name dest copied =>
    have hfree := hfree dest (List.mem_singleton_self dest)
    rw [perform, remove_free hfree]
    refine ⟨h.grows (make_grows hfree copied) (make_index copied), fun e he f hf => ?_⟩
    obtain ⟨b, hb, rfl⟩ := Option.map_eq_some_iff.mp he
    rw [List.mem_singleton.mp hf]
    exact make_holds hfree hb
  | file name dest source =>
    obtain ⟨hr, hdone⟩ :=
      place_reliable hshared h hsteady (hfree dest (List.mem_singleton_self dest))
    refine ⟨hr, fun e he f hf => ?_⟩
    rw [perform] at he
    split at he
    · rename_i hplaced
      obtain rfl := Option.some.inj he
      rw [List.mem_singleton.mp hf]
      exact hdone hplaced
    · cases he
  | tree name dest files broken =>
    obtain ⟨hr, hentries⟩ := tree_reliable hshared dest files h hsteady hapart hfree
    refine ⟨hr, fun e he f hf => ?_⟩
    rw [perform] at he
    split at he
    · cases he
    · obtain ⟨entries, hall, rfl⟩ := Option.map_eq_some_iff.mp he
      obtain ⟨x, hx, rfl⟩ := List.mem_map.mp hf
      exact hentries entries hall x hx
  | bundle name dest refs linkable made =>
    have hfree := hfree dest (List.mem_singleton_self dest)
    rw [perform]
    cases hreuse : reuseBundle digest s? w name refs dest linkable with
    | some r =>
      obtain ⟨hr, hnew⟩ := reuse_reliable h hreuse
      refine ⟨hr, fun e he f hf => ?_⟩
      obtain rfl := Option.some.inj he
      rw [List.mem_singleton.mp hf]
      exact hnew
    | none =>
      refine ⟨h.grows (make_grows hfree made) (make_index made), fun e he f hf => ?_⟩
      obtain ⟨b, hb, rfl⟩ := Option.map_eq_some_iff.mp he
      rw [List.mem_singleton.mp hf]
      exact make_holds hfree hb

theorem work_reliable {s? : Option (SetDir H)} (hshared : ∀ i h, shared i h → i < base.length)
    (items : List (Item B H)) (h : Reliable digest shared base (filesOf s?) w)
    (hsteady : ∀ item ∈ items, item.Steady digest) (hapart : (items.flatMap Item.paths).Nodup)
    (hfree : ∀ p ∈ items.flatMap Item.paths, w.incoming.lookup p = none) :
    ∀ f ∈ (workOn digest s? w items).1.flatMap Entry.recorded,
      Holds digest shared (workOn digest s? w items).2.blocks
        (workOn digest s? w items).2.incoming f := by
  induction items generalizing w with
  | nil => exact fun f hf => by cases hf
  | cons item items ih =>
    rw [List.flatMap_cons] at hapart hfree
    obtain ⟨hitem, hrest, hboth⟩ := List.nodup_append.mp hapart
    have hone : ∀ p ∈ item.paths, w.incoming.lookup p = none :=
      fun p hp => hfree p (List.mem_append_left _ hp)
    have hgrows := perform_grows digest s? item hitem hone
    obtain ⟨hr, hentry⟩ :=
      perform_reliable hshared h (hsteady item (List.mem_cons_self ..)) hitem hone
    have hlater : ∀ p ∈ items.flatMap Item.paths,
        (perform digest s? w item).2.incoming.lookup p = none := fun p hp =>
      hgrows.free (fun hin => hboth p hin p hp rfl) (hfree p (List.mem_append_right _ hp))
    intro f hf
    rw [workOn, List.flatMap_append, List.mem_append] at hf
    rcases hf with hf | hf
    · obtain ⟨e, he, hf⟩ := List.mem_flatMap.mp hf
      exact (hentry e (Option.mem_toList.mp he) f hf).grows
        (work_grows digest s? items hrest hlater)
    · exact ih hr (fun x hx => hsteady x (List.mem_cons_of_mem _ hx)) hrest hlater f hf

end Recording

/-! ### Sets that verify -/

section Verified

variable [DecidableEq H] {digest : B → H} {v : Volume B H} {blocks : List B}

/-- Every file of the manifest has its checksum. -/
def SetDir.Whole (digest : B → H) (blocks : List B) (s : SetDir H) : Prop :=
  s.manifest.isSome ∧ ∀ f ∈ s.recorded, ∃ b, contentAt blocks s.files f.1 = some b ∧ digest b = f.2

theorem check_nil {files : Files} {path label : String} {sha256 : H} :
    check digest blocks files path label sha256 = [] ↔
      ∃ b, contentAt blocks files path = some b ∧ digest b = sha256 := by
  unfold check
  cases contentAt blocks files path with
  | none => simp
  | some b => simp

theorem errors_nil {files : Files} (e : Entry H) : e.errors digest blocks files = [] ↔
    ∀ f ∈ e.recorded, ∃ b, contentAt blocks files f.1 = some b ∧ digest b = f.2 := by
  cases e with
  | sqlite name dest sha256 => simp [Entry.errors, Entry.recorded, check_nil]
  | file name dest sha256 => simp [Entry.errors, Entry.recorded, check_nil]
  | tree name dest files => simp [Entry.errors, Entry.recorded, check_nil]
  | bundle name dest sha256 refs => simp [Entry.errors, Entry.recorded, check_nil]

/-- What `verify_set` calls good. -/
theorem verify_iff (s : SetDir H) :
    (verifySet digest blocks s).ok = true ↔ s.Whole digest blocks := by
  unfold verifySet SetDir.Whole SetDir.recorded
  cases s.manifest with
  | none => simp
  | some entries =>
    simp only [List.isEmpty_iff, List.flatMap_eq_nil_iff, errors_nil, Option.isSome_some, true_and,
      Option.getD_some, List.mem_flatMap, forall_exists_index, and_imp]
    exact ⟨fun h f e he hf => h e he f hf, fun h e he f hf => h f e he hf⟩

theorem content_kept {blocks' : List B} (h : blocks <+: blocks') {files : Files} {path : String}
    {b : B} (hb : contentAt blocks files path = some b) :
    contentAt blocks' files path = some b := by
  obtain ⟨i, hi, hb⟩ := Option.bind_eq_some_iff.mp hb
  exact Option.bind_eq_some_iff.mpr ⟨i, hi, block_kept h hb⟩

omit [DecidableEq H] in
theorem SetDir.Whole.kept {blocks' : List B} {s : SetDir H} (hs : s.Whole digest blocks)
    (h : blocks <+: blocks') : s.Whole digest blocks' := by
  refine ⟨hs.1, fun f hf => ?_⟩
  obtain ⟨b, hb, hsame⟩ := hs.2 f hf
  exact ⟨b, content_kept h hb, hsame⟩

omit [DecidableEq H] in
theorem previous_mem {s : SetDir H} (h : v.previous = some s) : s ∈ v.sets := by
  obtain ⟨name, -, hs⟩ := Option.bind_eq_some_iff.mp h
  exact List.mem_of_find?_eq_some hs

theorem mem_from_previous {s? : Option (SetDir H)} {e : H × Place}
    (h : e ∈ fromPrevious s?) : ∃ s f, s? = some s ∧ f ∈ s.recorded ∧ e = (f.2, .previous f.1) := by
  have hfold : ∀ (recorded : List (String × H)) (index : List (H × Place)),
      e ∈ recorded.foldl (fun index f => setDefault index f.2 (.previous f.1)) index →
      e ∈ index ∨ ∃ f ∈ recorded, e = (f.2, .previous f.1) := by
    intro recorded
    induction recorded with
    | nil => exact fun index he => .inl he
    | cons f recorded ih =>
      intro index he
      rcases ih _ he with he | ⟨f', hf', rfl⟩
      · rcases mem_set_default he with he | rfl
        · exact .inl he
        · exact .inr ⟨f, List.mem_cons_self .., rfl⟩
      · exact .inr ⟨f', List.mem_cons_of_mem _ hf', rfl⟩
  cases s? with
  | none => cases h
  | some s =>
    rcases hfold s.recorded [] h with h | ⟨f, hf, rfl⟩
    · cases h
    · exact ⟨s, f, rfl, hf, rfl⟩

/-- The files of a run are apart from each other. -/
def Apart (items : List (Item B H)) : Prop := (items.flatMap Item.paths).Nodup

theorem begin_free (p : String) : v.begin.incoming.lookup p = none := rfl

theorem run_grows (digest : B → H) {items : List (Item B H)} (h : Apart items) :
    v.blocks <+: (workOn digest v.previous v.begin items).2.blocks :=
  (work_grows digest v.previous items h (fun p _ => begin_free p)).blocks

theorem new_set_holds (shared : Nat → H → Prop)
    (hshared : ∀ i h, shared i h → i < v.blocks.length)
    (hfound : ∀ s, v.previous = some s → ∀ f ∈ s.recorded, ∀ i,
      s.files.lookup f.1 = some i → shared i f.2)
    {items : List (Item B H)} (hapart : Apart items) (hsteady : ∀ item ∈ items, item.Steady digest)
    (id : String) : ∀ f ∈ (newSet digest v id items).recorded,
      Holds digest shared (runBackup digest v id items).blocks
        (newSet digest v id items).files f := by
  refine work_reliable hshared items ⟨List.prefix_refl _, fun h p hp => ?_, fun h p i hp hi => ?_⟩
    hsteady hapart (fun p _ => begin_free p)
  · obtain ⟨s, f, -, -, heq⟩ := mem_from_previous hp
    cases heq
  · obtain ⟨s, f, hs, hf, heq⟩ := mem_from_previous hp
    obtain ⟨rfl, hpath⟩ := Prod.mk.inj heq
    cases hpath
    rw [hs] at hi
    exact hfound s hs f hf i hi

/-- The blocks of every set are there. -/
def Volume.Sound (v : Volume B H) : Prop :=
  ∀ s ∈ v.sets, ∀ p i, s.files.lookup p = some i → i < v.blocks.length

/-- A new set of steady sources is found good exactly if all that it shares with
older sets still has the checksums it records: damage is linked on by the
linker, and nothing else of it can fail. -/
theorem backup_verifies_iff (hv : v.Sound) {items : List (Item B H)} (hapart : Apart items)
    (hsteady : ∀ item ∈ items, item.Steady digest) (id : String) :
    (verifySet digest (runBackup digest v id items).blocks (newSet digest v id items)).ok = true ↔
      ∀ f ∈ (newSet digest v id items).recorded, ∀ i b,
        (newSet digest v id items).files.lookup f.1 = some i → v.blocks[i]? = some b →
          digest b = f.2 := by
  have hgrows : v.blocks <+: (runBackup digest v id items).blocks := run_grows digest hapart
  rw [verify_iff]
  constructor
  · intro hwhole f hf i b hi hb
    obtain ⟨b', hb', hsame⟩ := hwhole.2 f hf
    obtain ⟨j, hj, hb'⟩ := Option.bind_eq_some_iff.mp hb'
    obtain rfl := Option.some.inj (hi.symm.trans hj)
    obtain rfl := Option.some.inj ((block_kept hgrows hb).symm.trans hb')
    exact hsame
  · intro hold
    refine ⟨rfl, fun f hf => ?_⟩
    obtain ⟨i, b, hi, hb, hok⟩ := new_set_holds (fun i _ => i < v.blocks.length)
      (fun _ _ h => h) (fun s hs f _ i hi => hv s (previous_mem hs) f.1 i hi) hapart hsteady id f hf
    refine ⟨b, Option.bind_eq_some_iff.mpr ⟨i, hi, hb⟩, ?_⟩
    rcases hok with hok | hlt
    · exact hok
    · have hthere := List.getElem?_eq_getElem hlt
      obtain rfl := Option.some.inj ((block_kept hgrows hthere).symm.trans hb)
      exact hold f hf i _ hi hthere

/-! ### Whole histories -/

def Event.Orderly (digest : B → H) : Event B H → Prop
  | .run _ items => Apart items ∧ ∀ item ∈ items, item.Steady digest
  | .crash items => Apart items
  | .prune _ => True

theorem step_grows {e : Event B H} (he : e.Orderly digest) :
    v.blocks <+: (step digest v e).blocks := by
  cases e with
  | run id items => exact run_grows digest he.1
  | crash items => exact run_grows digest he
  | prune names => exact List.prefix_refl _

theorem step_whole {e : Event B H} (he : e.Orderly digest)
    (hv : ∀ s ∈ v.sets, s.Whole digest v.blocks) :
    ∀ s ∈ (step digest v e).sets, s.Whole digest (step digest v e).blocks := by
  have hgrows := step_grows (v := v) he
  cases e with
  | crash items => exact fun s hs => (hv s hs).kept hgrows
  | prune names => exact fun s hs => hv s (List.mem_filter.mp hs).1
  | run id items =>
    intro s hs
    rcases List.mem_append.mp hs with hs | hs
    · exact (hv s (List.mem_filter.mp hs).1).kept hgrows
    obtain rfl := List.mem_singleton.mp hs
    refine ⟨rfl, fun f hf => ?_⟩
    have hfound : ∀ s, v.previous = some s → ∀ f ∈ s.recorded, ∀ i,
        s.files.lookup f.1 = some i → ∃ b, v.blocks[i]? = some b ∧ digest b = f.2 := by
      intro s hs f hf i hi
      obtain ⟨b, hb, hsame⟩ := (hv s (previous_mem hs)).2 f hf
      obtain ⟨j, hj, hb⟩ := Option.bind_eq_some_iff.mp hb
      obtain rfl := Option.some.inj (hi.symm.trans hj)
      exact ⟨b, hb, hsame⟩
    obtain ⟨i, b, hi, hb, hok⟩ := new_set_holds
      (fun i h => ∃ b, v.blocks[i]? = some b ∧ digest b = h)
      (fun i h hb => hb.elim (fun b hb => (List.getElem?_eq_some_iff.mp hb.1).1)) hfound he.1 he.2
      id f hf
    refine ⟨b, Option.bind_eq_some_iff.mpr ⟨i, hi, hb⟩, ?_⟩
    rcases hok with hok | ⟨b', hb', hsame⟩
    · exact hok
    · obtain rfl := Option.some.inj ((block_kept hgrows hb').symm.trans hb)
      exact hsame

theorem later_grows (v : Volume B H) {events : List (Event B H)}
    (h : ∀ e ∈ events, e.Orderly digest) :
    v.blocks <+: (events.foldl (step digest) v).blocks := by
  induction events generalizing v with
  | nil => exact List.prefix_refl _
  | cons e events ih =>
    exact (step_grows (h e (List.mem_cons_self ..))).trans
      (ih (step digest v e) (fun e he => h e (List.mem_cons_of_mem _ he)))

theorem history_whole {events : List (Event B H)} (h : ∀ e ∈ events, e.Orderly digest) :
    ∀ s ∈ (history digest events).sets, s.Whole digest (history digest events).blocks := by
  induction events using List.reverseRecOn with
  | nil => exact fun s hs => by cases hs
  | append_singleton events e ih =>
    have hlast : history digest (events ++ [e]) = step digest (history digest events) e := by
      simp [history]
    rw [hlast]
    exact step_whole (h e (by simp)) (ih (fun e he => h e (List.mem_append_left _ he)))

/-- Whatever runs, cut-off runs and removals a disk has seen: every set on it is
found good, and what a finished set held once it holds for good, however many
of its files later sets share. -/
theorem sets_stay_whole {before after : List (Event B H)}
    (h : ∀ e ∈ before ++ after, e.Orderly digest) :
    (∀ s ∈ (history digest (before ++ after)).sets,
      (verifySet digest (history digest (before ++ after)).blocks s).ok = true) ∧
    ∀ s ∈ (history digest before).sets, ∀ path b,
      contentAt (history digest before).blocks s.files path = some b →
        contentAt (history digest (before ++ after)).blocks s.files path = some b := by
  refine ⟨fun s hs => (verify_iff s).mpr (history_whole h s hs), fun s _ path b hb => ?_⟩
  have hlater : history digest (before ++ after) =
      after.foldl (step digest) (history digest before) := List.foldl_append
  rw [hlater]
  exact content_kept (later_grows _ (fun e he => h e (List.mem_append_right _ he))) hb

end Verified

section sample

def sampleItems : List (Item String String) := [
  .file "config" "config.yaml" ⟨"port", .ok "port", true⟩,
  .bundle "git-core" "Repos/core.bundle" "refs" true (.ok "pack")]

theorem sample_apart : Apart sampleItems := by simp [Apart, sampleItems, Item.paths]

theorem sample_steady : ∀ item ∈ sampleItems, item.Steady id := by
  intro item hitem
  simp only [sampleItems, List.mem_cons, List.not_mem_nil, or_false] at hitem
  rcases hitem with rfl | rfl
  · intro b hb
    cases hb
    rfl
  · exact trivial

/-- A set whose file has rotted on the disk. -/
def rotten : Volume String String :=
  ⟨["rust"], [⟨"20260101-000000", [("config.yaml", 0)],
    some [.file "config" "config.yaml" "port"]⟩]⟩

theorem rot_is_linked :
    (verifySet id (runBackup id rotten "20260102-000000" sampleItems).blocks
      (newSet id rotten "20260102-000000" sampleItems)).ok = false := by
  have hsound : rotten.Sound := by
    intro s hs p i hi
    rw [List.mem_singleton.mp hs] at hi
    have hin := mem_of_lookup hi
    rw [(Prod.mk.inj (List.mem_singleton.mp hin)).2]
    decide
  rw [Bool.eq_false_iff]
  intro hok
  have hold := (backup_verifies_iff hsound sample_apart sample_steady "20260102-000000").mp hok
    ("config.yaml", "port") (by decide) 0 "rust" (by decide) rfl
  exact absurd hold (by decide)

def firstEvents : List (Event String String) := [.run "20260101-000000" sampleItems]

def laterEvents : List (Event String String) := [
  .crash sampleItems, .run "20260102-000000" sampleItems, .prune ["20260101-000000"]]

theorem events_orderly : ∀ e ∈ firstEvents ++ laterEvents, e.Orderly id := by
  intro e he
  simp only [firstEvents, laterEvents, List.cons_append, List.nil_append, List.mem_cons,
    List.not_mem_nil, or_false] at he
  rcases he with rfl | rfl | rfl | rfl
  · exact ⟨sample_apart, sample_steady⟩
  · exact sample_apart
  · exact ⟨sample_apart, sample_steady⟩
  · exact trivial

theorem sample_stays : (history id (firstEvents ++ laterEvents)).sets.all (fun s =>
    (verifySet id (history id (firstEvents ++ laterEvents)).blocks s).ok) = true :=
  List.all_eq_true.mpr (sets_stay_whole events_orderly).1

end sample

end Solvio.Storage.Engine
