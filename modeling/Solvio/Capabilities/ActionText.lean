import Mathlib.Data.List.Sort
import Solvio.Capabilities.Policy
import Solvio.Lib.Lines
import Solvio.Lib.Sha256

namespace Solvio.Capabilities
open Solvio.Lib

/-- A headline and the labels of `ACTION_LABELS`. -/
structure Wording where
  headline : String
  labels : List (String × String)

/-- What is shown of an action, as a dict of its keys. -/
abbrev ShownArguments : Type := List (String × Shown)

namespace Wording

/-- `labels.get(key, key)`. -/
def label (w : Wording) (key : String) : String :=
  ((w.labels.find? (fun p => p.1 = key)).map Prod.snd).getD key

/-- The line of one argument. -/
def line (w : Wording) (argument : String × Shown) : List Char :=
  (w.label argument.1).toList ++ ':' :: ' ' :: argument.2.data.dumpChars

/-- The last line, which names where it was asked. -/
def originLine (origin : String) : List (List Char) :=
  if origin = "" then [] else ["Angefragt über: ".toList ++ origin.toList]

def sortedArguments (arguments : ShownArguments) : ShownArguments :=
  arguments.insertionSort (fun a b => a.1 ≤ b.1)

theorem mem_sorted {a : String × Shown} {arguments : ShownArguments} :
    a ∈ sortedArguments arguments ↔ a ∈ arguments := List.mem_insertionSort _

/-- `render_action`. -/
def renderAction (w : Wording) (arguments : ShownArguments) (origin : String) : String :=
  String.ofList (joined (w.headline.toList ::
    ((sortedArguments arguments).map w.line ++ originLine origin)))

/-- Labels that tell their keys apart, on one line each. -/
def Clear (w : Wording) : Prop :=
  '\n' ∉ w.headline.toList ∧ ∀ p ∈ w.labels, w.label p.1 = p.2 ∧ '\n' ∉ p.2.toList ∧
    ¬ [':', ' '] <:+: p.2.toList ∧ ∀ q ∈ w.labels, p.2 = q.2 → p.1 = q.1

instance (w : Wording) : Decidable w.Clear := inferInstanceAs (Decidable (_ ∧ _))

/-- The arguments have labels of their own. -/
def Labels (w : Wording) (arguments : ShownArguments) : Prop :=
  ∀ a ∈ arguments, a.1 ∈ w.labels.map Prod.fst

variable {w : Wording} {a b : String × Shown} {arguments arguments' : ShownArguments}

theorem clear_label (h : w.Clear) {key : String} (hk : key ∈ w.labels.map Prod.fst) :
    '\n' ∉ (w.label key).toList ∧ ¬ [':', ' '] <:+: (w.label key).toList := by
  obtain ⟨p, hp, rfl⟩ := List.mem_map.mp hk
  obtain ⟨hlabel, hline, hcut, -⟩ := h.2 p hp
  rw [hlabel]
  exact ⟨hline, hcut⟩

theorem label_injective (h : w.Clear) {key key' : String} (hk : key ∈ w.labels.map Prod.fst)
    (hk' : key' ∈ w.labels.map Prod.fst) (heq : w.label key = w.label key') : key = key' := by
  obtain ⟨p, hp, rfl⟩ := List.mem_map.mp hk
  obtain ⟨q, hq, rfl⟩ := List.mem_map.mp hk'
  obtain ⟨hlabel, -, -, hinj⟩ := h.2 p hp
  exact hinj q hq (by rw [← hlabel, heq, (h.2 q hq).1])

theorem line_injective (h : w.Clear) (ha : a.1 ∈ w.labels.map Prod.fst)
    (hb : b.1 ∈ w.labels.map Prod.fst) (heq : w.line a = w.line b) : a = b := by
  obtain ⟨hlabel, hvalue⟩ := label_cancel (clear_label h ha).2 (clear_label h hb).2 heq
  exact Prod.ext (label_injective h ha hb (String.toList_inj.mp hlabel))
    (Shown.data_injective hvalue)

theorem line_break (h : w.Clear) (ha : a.1 ∈ w.labels.map Prod.fst) : '\n' ∉ w.line a := by
  simp only [line, List.mem_append, List.mem_cons, not_or]
  exact ⟨(clear_label h ha).1, by decide, by decide, Shown.data_line a.2⟩

/-- The lines of a text determine the arguments that it shows. -/
theorem lines_injective (h : w.Clear) {xs ys : ShownArguments} (hx : w.Labels xs)
    (hy : w.Labels ys) (heq : xs.map w.line = ys.map w.line) : xs = ys := by
  induction xs generalizing ys with
  | nil => exact (List.map_eq_nil_iff.mp heq.symm).symm
  | cons x xs ih =>
    cases ys with
    | nil => cases heq
    | cons y ys =>
      simp only [List.map_cons, List.cons.injEq] at heq
      have hhead := line_injective h (hx x (List.mem_cons_self ..)) (hy y (List.mem_cons_self ..))
        heq.1
      rw [hhead, ih (fun z hz => hx z (List.mem_cons_of_mem _ hz))
        (fun z hz => hy z (List.mem_cons_of_mem _ hz)) heq.2]

theorem text_break (h : w.Clear) (hl : w.Labels arguments) {origin : String}
    (ho : '\n' ∉ origin.toList) : ∀ l ∈ w.headline.toList ::
      ((sortedArguments arguments).map w.line ++ originLine origin), '\n' ∉ l := by
  intro l hmem
  rcases List.mem_cons.mp hmem with rfl | hmem
  · exact h.1
  · rcases List.mem_append.mp hmem with hmem | hmem
    · obtain ⟨a, ha, rfl⟩ := List.mem_map.mp hmem
      exact line_break h (hl a (Iff.mp mem_sorted ha))
    · unfold originLine at hmem
      split at hmem
      · cases hmem
      · rw [List.mem_singleton.mp hmem]
        simp only [List.mem_append, not_or]
        exact ⟨by decide, ho⟩

/-- The same text is asked from the same place for the same arguments. -/
theorem render_action_injective (h : w.Clear) {origin origin' : String}
    (ho : '\n' ∉ origin.toList) (ho' : '\n' ∉ origin'.toList) (hne : origin ≠ "")
    (hne' : origin' ≠ "") (hl : w.Labels arguments) (hl' : w.Labels arguments')
    (heq : w.renderAction arguments origin = w.renderAction arguments' origin') :
    origin = origin' ∧ ∀ a, a ∈ arguments ↔ a ∈ arguments' := by
  have hsorted : ∀ xs, w.Labels xs → w.Labels (sortedArguments xs) :=
    fun xs hxs a ha => hxs a (Iff.mp mem_sorted ha)
  have hjoined := joined_injective (text_break h hl ho) (text_break h hl' ho') (by simp) (by simp)
    (String.ofList_injective heq)
  simp only [List.cons.injEq, true_and, originLine, if_neg hne, if_neg hne'] at hjoined
  obtain ⟨hlines, hlast⟩ := List.append_inj' hjoined rfl
  simp only [List.cons.injEq, and_true] at hlast
  refine ⟨String.toList_inj.mp (List.append_cancel_left hlast), fun a => ?_⟩
  rw [← mem_sorted, lines_injective h (hsorted _ hl) (hsorted _ hl') hlines, mem_sorted]

end Wording

/-- `ORIGIN_LABEL`. -/
def originLabel : OriginClass → String
  | .trustedInteractiveApp => "iPhone-App"
  | .roomVoice => "Raum-Mikrofon"
  | .localOwner => "Rechner"
  | .backgroundAutomation => "Hintergrundlauf"
  | .externalUntrusted => "fremder Inhalt"
  | .unspecified => "unbekannt"

theorem origin_label_line (o : OriginClass) : '\n' ∉ (originLabel o).toList := by
  cases o with
  | _ => decide

theorem origin_label_ne (o : OriginClass) : originLabel o ≠ "" := by
  cases o with
  | _ => decide

/-! ### The digest of an action -/

/-- `action_digest`, what is hashed. -/
def actionBytes (tool mode task workspace : String) : Bytes :=
  encodeUtf8 "SOLVIO_APPROVAL_V1" ++ 0 :: encodeUtf8 (String.ofList (Json.obj
    [Json.field "mode" (Json.string mode),
     Json.field "task" (Json.string task),
     Json.field "tool_id" (Json.string tool),
     Json.field "v" (.int 1),
     Json.field "workspace" (Json.string workspace)]).render)

/-- The bytes of an action of a controlled capability in its first version. -/
def approvalBytes (tool task : String) : Bytes := actionBytes tool "controlled-v1" task ""

/-- `action_digest` of these. -/
def approvalDigest (tool task : String) : String := toHex (sha256 (approvalBytes tool task))

theorem approval_bytes_task {tool task task' : String}
    (h : approvalBytes tool task = approvalBytes tool task') : task = task' := by
  have htext := encode_utf8_injective (List.cons.inj (List.append_cancel_left h)).2
  have hs := Json.spelled_of_string
  have hjson := Json.render_injective (by exact ⟨hs _, hs _, hs _, hs _, hs _, hs _, hs _, trivial,
    hs _, hs _, trivial⟩) (by exact ⟨hs _, hs _, hs _, hs _, hs _, hs _, hs _, trivial,
    hs _, hs _, trivial⟩) (String.ofList_injective htext)
  simp only [Json.field, Json.obj.injEq, List.cons.injEq, Prod.mk.injEq, true_and, and_true] at hjson
  exact text_injective (Json.str.inj hjson)

/-- Without a collision, a digest determines the text. -/
theorem approval_digest_task {tool task task' : String}
    (hsha : sha256 (approvalBytes tool task) = sha256 (approvalBytes tool task') →
      approvalBytes tool task = approvalBytes tool task')
    (h : approvalDigest tool task = approvalDigest tool task') : task = task' :=
  approval_bytes_task (hsha (to_hex_injective h))

/-! ### The capabilities -/

namespace ActionLabels

def confirmBinding : Wording where
  headline := "Einen Kontakt festlegen oder ändern"
  labels := [("diese_person", "Wer"), ("gemerkt_als", "Gemerkt als"), ("hiess_bisher", "Wer bisher"),
    ("kontakt_bisher", "Bisher erreichbar über"), ("kontakt_neu", "Künftig erreichbar über"),
    ("stand", "Stand")]

def telephonyCall : Wording where
  headline := "Anruf führen und etwas ausrichten"
  labels := [("anrufen", "Anrufen"), ("bei_nummer", "Unter der Nummer"),
    ("nachricht", "Diese Nachricht wird ausgerichtet"), ("worum_es_geht", "Worum es geht"),
    ("zeitrahmen", "Das Gespräch endet spätestens nach")]

def portalLogin : Wording where
  headline := "SOLVIO möchte sich anmelden"
  labels := [("portal", "Portal"), ("adresse", "Domain"), ("seite", "Seite"), ("aktion", "Vorgang"),
    ("zugang", "Konto"), ("felder", "Eingaben"), ("pruefsumme", "Seitenprüfsumme")]

/-- `labels_are_unambiguous`. -/
theorem all_clear : ∀ w ∈ [confirmBinding, telephonyCall, portalLogin], w.Clear := by
  decide

end ActionLabels

end Solvio.Capabilities
