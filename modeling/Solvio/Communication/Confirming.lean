import Solvio.Capabilities.ActionText
import Solvio.Capabilities.Policy
import Solvio.Communication.Bindings

namespace Solvio.Communication
open Solvio.Lib Solvio.Capabilities

variable {T : Writing}

/-! ### What is shown -/

/-- The arguments of `communication_confirm_binding`, each handle as the texts that `str`
makes of its channel and its value. -/
structure Arguments where
  aliasName : String
  displayName : String
  handles : List Handle
  source : String := ""
deriving DecidableEq

/-- `_requested`. -/
def requested (T : Writing) (a : Arguments) : Option Wanted :=
  let wanted := collapsed a.aliasName
  let ways := (cleanHandles T a.handles).filter Handle.full
  if wanted = "" ∨ stripped a.displayName = "" ∨ ways = [] ∨
      ways.length ≠ (cleanHandles T a.handles).length then none
  else some { aliasName := wanted, displayName := stripped a.displayName, handles := ways
              source := stripped (if a.source = "" then "user_confirmed" else a.source) }

/-- `_KANAL_WORT`. -/
def channelWord (channel : String) : String :=
  if channel = "phone" then "Telefon" else if channel = "gmail" then "E-Mail"
  else if channel = "email" then "E-Mail" else if channel = "sms" then "SMS" else channel

def wayText (h : Handle) : String := channelWord h.channel ++ ": " ++ h.value

/-- `_kontaktwege`: one way is a text, several are a list. -/
def contactWays (T : Writing) (hs : List Handle) : Shown :=
  match ((cleanHandles T hs).filter Handle.full).map wayText with
  | [way] => .text way
  | ways => .list ways

/-- `_shown`. -/
def shown (w : Wanted) (before : Option (Row T)) : ShownArguments :=
  [("diese_person", .text w.displayName),
   ("gemerkt_als", .text w.aliasName),
   ("kontakt_bisher", (before.map (fun row => contactWays T row.handles)).getD
     (.text "noch nicht gemerkt")),
   ("kontakt_neu", contactWays T w.handles)] ++
  match before with
  | none => []
  | some row => ("stand", .text (String.ofList (Json.decimal row.version))) ::
      if row.displayName ≠ w.displayName then [("hiess_bisher", .text row.displayName)] else []

/-- `describe_confirm_binding`: what is shown of a change. -/
def describe (T : Writing) (a : Arguments) (s : Store T) : Option ShownArguments :=
  match requested T a with
  | none => none
  | some w =>
    if sameBinding (s.get w.aliasName) w.displayName w.handles then none
    else some (shown w (s.get w.aliasName))

/-! ### The text of an action -/

/-- The text that is approved. -/
def textOf (w : Wanted) (before : Option (Row T)) (origin : OriginClass) : String :=
  ActionLabels.confirmBinding.renderAction (shown w before) (originLabel origin)

/-- What is shown under a key. -/
theorem mem_shown {w : Wanted} {before : Option (Row T)} {a : String × Shown} :
    a ∈ shown w before ↔ a = ("diese_person", .text w.displayName) ∨
      a = ("gemerkt_als", .text w.aliasName) ∨
      a = ("kontakt_bisher", (before.map (fun row => contactWays T row.handles)).getD
        (.text "noch nicht gemerkt")) ∨
      a = ("kontakt_neu", contactWays T w.handles) ∨
      (∃ row, before = some row ∧ a = ("stand", .text (String.ofList (Json.decimal row.version)))) ∨
      ∃ row, before = some row ∧ row.displayName ≠ w.displayName ∧
        a = ("hiess_bisher", .text row.displayName) := by
  simp only [shown, List.cons_append, List.nil_append, List.mem_cons]
  cases before with
  | none => simp
  | some row =>
    by_cases hname : row.displayName = w.displayName
    · simp [hname]
    · simp [hname]

/-- What stands under each key of what is shown. -/
structure ShowsValues (w : Wanted) (before : Option (Row T)) : Prop where
  name : ∀ x, ("diese_person", x) ∈ shown w before ↔ x = .text w.displayName
  noted : ∀ x, ("gemerkt_als", x) ∈ shown w before ↔ x = .text w.aliasName
  soFar : ∀ x, ("kontakt_bisher", x) ∈ shown w before ↔
    x = (before.map (fun row => contactWays T row.handles)).getD (.text "noch nicht gemerkt")
  ways : ∀ x, ("kontakt_neu", x) ∈ shown w before ↔ x = contactWays T w.handles
  stand : ∀ x, ("stand", x) ∈ shown w before ↔
    ∃ row, before = some row ∧ x = .text (String.ofList (Json.decimal row.version))
  other : ∀ x, ("hiess_bisher", x) ∈ shown w before ↔
    ∃ row, before = some row ∧ row.displayName ≠ w.displayName ∧ x = .text row.displayName

theorem shows_values (w : Wanted) (before : Option (Row T)) : ShowsValues w before := by
  constructor <;> intro x <;> rw [mem_shown] <;>
    simp only [Prod.mk.injEq, String.reduceEq, false_and, true_and, and_false, exists_false,
      or_false, false_or]

theorem shown_labels (w : Wanted) (before : Option (Row T)) :
    ActionLabels.confirmBinding.Labels (shown w before) := by
  intro a ha
  rcases Iff.mp mem_shown ha with rfl | rfl | rfl | rfl | ⟨row, -, rfl⟩ | ⟨row, -, -, rfl⟩
  all_goals simp [ActionLabels.confirmBinding]

/-- The same things are shown. -/
def SameShown (xs ys : ShownArguments) : Prop := ∀ a, a ∈ xs ↔ a ∈ ys

theorem text_same {w w' : Wanted} {before before' : Option (Row T)} {origin origin' : OriginClass}
    (h : textOf w before origin = textOf w' before' origin') :
    SameShown (shown w before) (shown w' before') :=
  (Wording.render_action_injective (ActionLabels.all_clear _ (by simp)) (origin_label_line origin)
    (origin_label_line origin') (origin_label_ne origin) (origin_label_ne origin')
    (shown_labels w before) (shown_labels w' before') h).2

/-! ### What the shown determines -/

section
variable {w w' : Wanted} {before before' : Option (Row T)}

theorem shown_name (h : SameShown (shown w before) (shown w' before')) :
    w.displayName = w'.displayName := by
  have hmem := (h _).mp (((shows_values w before).name _).mpr rfl)
  exact Shown.text.inj (((shows_values w' before').name _).mp hmem)

theorem shown_alias (h : SameShown (shown w before) (shown w' before')) :
    w.aliasName = w'.aliasName := by
  have hmem := (h _).mp (((shows_values w before).noted _).mpr rfl)
  exact Shown.text.inj (((shows_values w' before').noted _).mp hmem)

theorem shown_ways (h : SameShown (shown w before) (shown w' before')) :
    contactWays T w.handles = contactWays T w'.handles := by
  have hmem := (h _).mp (((shows_values w before).ways _).mpr rfl)
  exact ((shows_values w' before').ways _).mp hmem

theorem shown_before (h : SameShown (shown w before) (shown w' before')) :
    (before.map (fun row => contactWays T row.handles)).getD (.text "noch nicht gemerkt") =
      (before'.map (fun row => contactWays T row.handles)).getD (.text "noch nicht gemerkt") := by
  have hmem := (h _).mp (((shows_values w before).soFar _).mpr rfl)
  exact ((shows_values w' before').soFar _).mp hmem

theorem decimal_injective {n m : Nat} (h : Json.decimal n = Json.decimal m) : n = m := by
  rw [← Json.nat_of_decimal n, h, Json.nat_of_decimal]

theorem shown_stand (h : SameShown (shown w before) (shown w' before')) {row : Row T}
    (hrow : before = some row) : ∃ row', before' = some row' ∧ row'.version = row.version := by
  have hmem := (h _).mp (((shows_values w before).stand _).mpr ⟨row, hrow, rfl⟩)
  obtain ⟨row', hrow', heq⟩ := ((shows_values w' before').stand _).mp hmem
  have hversion := String.ofList_injective (Shown.text.inj heq)
  exact ⟨row', hrow', (decimal_injective hversion).symm⟩

theorem shown_other_name (h : SameShown (shown w before) (shown w' before')) {row : Row T}
    (hrow : before = some row) (hname : row.displayName ≠ w.displayName) :
    ∃ row', before' = some row' ∧ row'.displayName ≠ w'.displayName ∧
      row'.displayName = row.displayName := by
  have hmem := (h _).mp (((shows_values w before).other _).mpr ⟨row, hrow, hname, rfl⟩)
  obtain ⟨row', hrow', hother, heq⟩ := ((shows_values w' before').other _).mp hmem
  exact ⟨row', hrow', hother, (Shown.text.inj heq).symm⟩

theorem SameShown.symm {xs ys : ShownArguments} (h : SameShown xs ys) : SameShown ys xs :=
  fun a => (h a).symm

/-- Whether there was a binding, its version and its name. -/
theorem shown_row (h : SameShown (shown w before) (shown w' before')) :
    before.map (fun row => (row.version, row.displayName)) =
      before'.map (fun row => (row.version, row.displayName)) := by
  cases hb : before with
  | none =>
    cases hb' : before' with
    | none => rfl
    | some row' =>
      obtain ⟨row, hrow, -⟩ := shown_stand h.symm hb'
      rw [hb] at hrow
      cases hrow
  | some row =>
    obtain ⟨row', hrow', hversion⟩ := shown_stand h hb
    have hname : row'.displayName = row.displayName := by
      by_cases hother : row.displayName = w.displayName
      · by_contra hne
        have hother' : row'.displayName ≠ w'.displayName := fun heq =>
          hne (heq.trans ((shown_name h).symm.trans hother.symm))
        obtain ⟨row₂, hrow₂, hother₂, -⟩ := shown_other_name h.symm hrow' hother'
        rw [hb] at hrow₂
        cases hrow₂
        exact hother₂ hother
      · obtain ⟨row₂, hrow₂, -, heq⟩ := shown_other_name h hb hother
        rw [hrow'] at hrow₂
        cases hrow₂
        exact heq
    rw [hrow']
    simp [hversion, hname]

end

/-! ### Which channels can be told apart -/

/-- One way is not taken for several. -/
theorem contact_ways_texts {hs hs' : List Handle} (h : contactWays T hs = contactWays T hs') :
    ((cleanHandles T hs).filter Handle.full).map wayText =
      ((cleanHandles T hs').filter Handle.full).map wayText := by
  unfold contactWays at h
  split at h
  · rename_i way hway
    split at h
    · rename_i way' hway'
      rw [hway, hway', Shown.text.inj h]
    · cases h
  · split at h
    · cases h
    · exact Shown.list.inj h

/-- A channel as it is kept. -/
structure Channel (T : Writing) where
  name : String
  nonempty : name ≠ ""
  settled : lowerStripped T.toTextTables name = name

/-- Two channels of which ways can be shown alike: the word is the same, or one word
ends where the value of the other may begin. -/
def Confused (c c' : String) : Prop :=
  channelWord c = channelWord c' ∨ ∃ r, (channelWord c').toList = (channelWord c).toList ++
    ':' :: ' ' :: r ∧ ∀ x ∈ r.head?, isSpace x = false

/-- No two of these channels can be shown alike. -/
def Readable (C : Set (Channel T)) : Prop :=
  ∀ c ∈ C, ∀ c' ∈ C, c.name ≠ c'.name → ¬ Confused c.name c'.name

/-- The ways are by these channels. -/
def Through (C : Set (Channel T)) (hs : List Handle) : Prop := ∀ h ∈ hs, ∃ c ∈ C, h.channel = c.name

theorem stripped_head {s : String} (h : stripped s = s) : ∀ x ∈ s.toList.head?, isSpace x = false := by
  rw [← h, stripped, String.toList_ofList]
  exact strip_head

theorem way_text_list (h : Handle) :
    (wayText h).toList = (channelWord h.channel).toList ++ ':' :: ' ' :: h.value.toList := by
  simp [wayText]

/-- A way that is shown like another, by a shorter word. -/
theorem way_confused {h h' : Handle} {m : List Char} (hv : stripped h.value = h.value)
    (hword : (channelWord h'.channel).toList = (channelWord h.channel).toList ++ m)
    (heq : ':' :: ' ' :: h.value.toList = m ++ ':' :: ' ' :: h'.value.toList) :
    Confused h.channel h'.channel ∧ (m = [] → h.value = h'.value) := by
  match m with
  | [] =>
    simp only [List.append_nil] at hword
    simp only [List.nil_append, List.cons.injEq, true_and] at heq
    exact ⟨.inl (String.toList_inj.mp hword).symm, fun _ => String.toList_inj.mp heq⟩
  | [c] => simp at heq
  | c :: d :: r =>
    simp only [List.cons_append, List.cons.injEq] at heq
    obtain ⟨rfl, rfl, hvalue⟩ := heq
    refine ⟨.inr ⟨r, hword, fun x hx => stripped_head hv x ?_⟩, fun hm => by cases hm⟩
    rw [hvalue, List.head?_append, hx]
    rfl

theorem way_text_injective {C : Set (Channel T)} (hC : Readable C) {h h' : Handle}
    (hc : ∃ c ∈ C, h.channel = c.name) (hc' : ∃ c ∈ C, h'.channel = c.name)
    (hv : stripped h.value = h.value) (hv' : stripped h'.value = h'.value)
    (heq : wayText h = wayText h') : h = h' := by
  obtain ⟨c, hmem, hname⟩ := hc
  obtain ⟨c', hmem', hname'⟩ := hc'
  have hlists := congrArg String.toList heq
  rw [way_text_list, way_text_list] at hlists
  have hchannel : h.channel = h'.channel := by
    by_contra hne
    rcases List.append_eq_append_iff.mp hlists with ⟨m, hword, hrest⟩ | ⟨m, hword, hrest⟩
    · refine hC c hmem c' hmem' (by rwa [← hname, ← hname']) ?_
      rw [← hname, ← hname']
      exact (way_confused hv hword hrest).1
    · refine hC c' hmem' c hmem (by rw [← hname, ← hname']; exact Ne.symm hne) ?_
      rw [← hname, ← hname']
      exact (way_confused hv' hword hrest).1
  rw [hchannel] at hlists
  have hvalue := List.append_cancel_left hlists
  simp only [List.cons.injEq, true_and] at hvalue
  obtain ⟨channel, value⟩ := h
  obtain ⟨channel', value'⟩ := h'
  cases hchannel
  cases String.toList_inj.mp hvalue
  rfl

theorem ways_injective {C : Set (Channel T)} (hC : Readable C) {hs hs' : List Handle}
    (hc : Through C hs) (hc' : Through C hs') (hv : ∀ h ∈ hs, stripped h.value = h.value)
    (hv' : ∀ h ∈ hs', stripped h.value = h.value) (heq : hs.map wayText = hs'.map wayText) :
    hs = hs' := by
  induction hs generalizing hs' with
  | nil => exact (List.map_eq_nil_iff.mp heq.symm).symm
  | cons h hs ih =>
    cases hs' with
    | nil => cases heq
    | cons h' hs' =>
      simp only [List.map_cons, List.cons.injEq] at heq
      rw [way_text_injective hC (hc h (by simp)) (hc' h' (by simp)) (hv h (by simp))
          (hv' h' (by simp)) heq.1,
        ih (fun x hx => hc x (List.mem_cons_of_mem _ hx))
          (fun x hx => hc' x (List.mem_cons_of_mem _ hx))
          (fun x hx => hv x (List.mem_cons_of_mem _ hx))
          (fun x hx => hv' x (List.mem_cons_of_mem _ hx)) heq.2]

/-- Handles that are kept as they are. -/
def Kept (T : Writing) (hs : List Handle) : Prop :=
  cleanHandles T hs = hs ∧ hs.all Handle.full = true

theorem Row.kept (row : Row T) : Kept T row.handles := ⟨row.settled, row.full⟩

theorem requested_kept {a : Arguments} {w : Wanted} (h : requested T a = some w) :
    Kept T w.handles := by
  unfold requested at h
  simp only at h
  split at h
  · cases h
  · cases h
    refine ⟨?_, by simp⟩
    unfold cleanHandles
    conv_rhs => rw [← List.map_id (List.filter _ _)]
    apply List.map_congr_left
    intro x hx
    obtain ⟨y, -, rfl⟩ := List.mem_map.mp (List.mem_filter.mp hx).1
    exact clean_again y

theorem Kept.stripped_values {hs : List Handle} (h : Kept T hs) :
    ∀ x ∈ hs, stripped x.value = x.value := by
  intro x hx
  rw [← h.1] at hx
  obtain ⟨y, -, rfl⟩ := List.mem_map.mp hx
  exact stripped_idem _

theorem Kept.contact_ways {hs : List Handle} (h : Kept T hs) :
    (cleanHandles T hs).filter Handle.full = hs := by
  rw [h.1]
  exact List.filter_eq_self.mpr (List.all_eq_true.mp h.2)

/-- By channels that can be told apart, the ways are told apart. -/
theorem contact_ways_injective {C : Set (Channel T)} (hC : Readable C) {hs hs' : List Handle}
    (h : Kept T hs) (h' : Kept T hs') (hc : Through C hs) (hc' : Through C hs')
    (heq : contactWays T hs = contactWays T hs') : hs = hs' := by
  have htexts := contact_ways_texts heq
  rw [h.contact_ways, h'.contact_ways] at htexts
  exact ways_injective hC hc hc' h.stripped_values h'.stripped_values htexts

/-! ### What a signature determines -/

/-- What is replaced: name, ways and version. -/
def Row.content (row : Row T) : String × List Handle × Nat :=
  (row.displayName, row.handles, row.version)

/-- A description, with what it reads. -/
structure Description (T : Writing) where
  arguments : Arguments
  store : Store T
  wanted : Wanted
  shown : ShownArguments
  requested : requested T arguments = some wanted
  described : describe T arguments store = some shown

def Description.before (d : Description T) : Option (Row T) := d.store.get d.wanted.aliasName

/-- The ways that it writes and replaces are by these channels. -/
def Description.Uses (C : Set (Channel T)) (d : Description T) : Prop :=
  Through C d.wanted.handles ∧ ∀ row, d.before = some row → Through C row.handles

/-- Two descriptions that show the same write the same and replace the same. -/
def Determines (C : Set (Channel T)) : Prop :=
  ∀ d d' : Description T, d.Uses C → d'.Uses C → SameShown d.shown d'.shown →
    normalizeAlias T.toTextTables d.wanted.aliasName =
      normalizeAlias T.toTextTables d'.wanted.aliasName ∧
    d.wanted.displayName = d'.wanted.displayName ∧
    (∀ h, h ∈ d.wanted.handles ↔ h ∈ d'.wanted.handles) ∧
    d.before.map Row.content = d'.before.map Row.content

theorem Description.shown_eq (d : Description T) :
    d.shown = Communication.shown d.wanted d.before := by
  have h := d.described
  simp only [describe, d.requested] at h
  split at h
  · cases h
  · exact (Option.some.inj h).symm

theorem determines_of_readable {C : Set (Channel T)} (hC : Readable C) : Determines C := by
  intro d d' huse huse' hsame
  rw [d.shown_eq, d'.shown_eq] at hsame
  refine ⟨by rw [shown_alias hsame], shown_name hsame, fun h => ?_, ?_⟩
  · rw [contact_ways_injective hC (requested_kept d.requested) (requested_kept d'.requested)
      huse.1 huse'.1 (shown_ways hsame)]
  · have hrow := shown_row hsame
    have hbefore := shown_before hsame
    cases hb : d.before with
    | none =>
      rw [hb] at hrow
      rw [Option.map_eq_none_iff.mp hrow.symm]
    | some row =>
      rw [hb] at hrow hbefore
      obtain ⟨row', hb', hsame'⟩ := Option.map_eq_some_iff.mp hrow.symm
      rw [hb'] at hbefore ⊢
      simp only [Prod.mk.injEq] at hsame'
      have hways := contact_ways_injective hC row.kept row'.kept (huse.2 row hb) (huse'.2 row' hb')
        hbefore
      simp [Row.content, hsame'.1, hsame'.2, hways]

/-- A new binding with one way. -/
def newContact (c : Channel T) (value : String) : Arguments :=
  { aliasName := "x", displayName := "x", handles := [⟨c.name, value⟩] }

def newWanted (c : Channel T) (value : String) : Wanted :=
  { aliasName := "x", displayName := "x", handles := [⟨c.name, value⟩], source := "user_confirmed" }

theorem new_contact_requested (c : Channel T) {value : String} (hv : stripped value = value)
    (hne : value ≠ "") : requested T (newContact c value) = some (newWanted c value) := by
  have halias : collapsed "x" = "x" := by decide
  have hname : stripped "x" = "x" := by decide
  have hsource : stripped "user_confirmed" = "user_confirmed" := by decide
  have hclean : Handle.clean T ⟨c.name, value⟩ = ⟨c.name, value⟩ := by
    simp [Handle.clean, c.settled, hv]
  have hfull : Handle.full ⟨c.name, value⟩ = true := by simp [Handle.full, c.nonempty, hne]
  simp [requested, newContact, newWanted, cleanHandles, halias, hname, hsource, hclean, hfull]

/-- Its description, by a store that is empty. -/
def newDescription (c : Channel T) (value : String) (hv : stripped value = value)
    (hne : value ≠ "") : Description T where
  arguments := newContact c value
  store := .empty
  wanted := newWanted c value
  shown := shown (newWanted c value) (none : Option (Row T))
  requested := new_contact_requested c hv hne
  described := by
    simp only [describe, new_contact_requested c hv hne]
    rfl

theorem new_contact_shown (c : Channel T) {value : String} (hv : stripped value = value)
    (hne : value ≠ "") : contactWays T (newWanted c value).handles =
      .text (wayText ⟨c.name, value⟩) := by
  have hkept := requested_kept (new_contact_requested c hv hne)
  unfold contactWays
  rw [hkept.contact_ways]
  rfl

/-- Ways that are shown alike by different channels. -/
theorem confused_values {c c' : Channel T} (h : Confused c.name c'.name) :
    ∃ v v', stripped v = v ∧ v ≠ "" ∧ stripped v' = v' ∧ v' ≠ "" ∧
      wayText ⟨c.name, v⟩ = wayText ⟨c'.name, v'⟩ := by
  have hx : stripped "x" = "x" := by decide
  rcases h with hword | ⟨r, hword, hhead⟩
  · exact ⟨"x", "x", hx, by decide, hx, by decide, by simp [wayText, hword]⟩
  · refine ⟨String.ofList (r ++ [':', ' ', 'x']), "x", ?_, ?_, hx, by decide, ?_⟩
    · unfold stripped
      rw [String.toList_ofList, strip_ends]
      · intro y hy
        cases r with
        | nil =>
          obtain rfl : ':' = y := by simpa using hy
          decide
        | cons z r => exact hhead y (by simpa using hy)
      · intro y hy
        obtain rfl : 'x' = y := by simpa using hy
        decide
    · intro heq
      have hlist := congrArg String.toList heq
      simp at hlist
    · apply String.toList_inj.mp
      rw [way_text_list, way_text_list, hword]
      simp

theorem readable_of_determines {C : Set (Channel T)} (h : Determines C) : Readable C := by
  intro c hc c' hc' hne hconfused
  obtain ⟨v, v', hv, hvne, hv', hvne', hways⟩ := confused_values hconfused
  have huse : ∀ (c : Channel T) (v : String) (hv : stripped v = v) (hne : v ≠ ""), c ∈ C →
      (newDescription c v hv hne).Uses C := by
    intro c v hv hne hc
    refine ⟨fun h hh => ?_, fun row hrow => by cases hrow⟩
    rw [List.mem_singleton.mp hh]
    exact ⟨c, hc, rfl⟩
  have hsame : SameShown (newDescription c v hv hvne).shown (newDescription c' v' hv' hvne').shown := by
    intro a
    simp only [newDescription, shown, new_contact_shown c hv hvne, new_contact_shown c' hv' hvne',
      hways]
    rfl
  obtain ⟨-, -, hhandles, -⟩ := h _ _ (huse c v hv hvne hc) (huse c' v' hv' hvne' hc') hsame
  have hmem := (hhandles ⟨c.name, v⟩).mp (List.mem_singleton.mpr rfl)
  exact hne (Handle.mk.inj (List.mem_singleton.mp hmem)).1

end Solvio.Communication
