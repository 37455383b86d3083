import Solvio.Lib.JsonText
import Solvio.Lib.PyData

namespace Solvio.Lib

/-! Texts that are put together from lines, and lines from a label and a value. -/

/-- What comes before the first `": "` is told from what follows it. -/
theorem label_cancel {l l' r r' : List Char} (hl : ¬ [':', ' '] <:+: l) (hl' : ¬ [':', ' '] <:+: l')
    (h : l ++ ':' :: ' ' :: r = l' ++ ':' :: ' ' :: r') : l = l' ∧ r = r' := by
  have hcut : ∀ {l l' r r' : List Char} {m : List Char}, ¬ [':', ' '] <:+: l' → l' = l ++ m →
      ':' :: ' ' :: r = m ++ ':' :: ' ' :: r' → m = [] := by
    intro l l' r r' m hl' hm heq
    match m with
    | [] => rfl
    | [c] => simp at heq
    | c :: d :: m =>
      simp only [List.cons_append, List.cons.injEq] at heq
      obtain ⟨rfl, rfl, -⟩ := heq
      exact absurd ⟨l, m, by simp [hm]⟩ hl'
  rcases List.append_eq_append_iff.mp h with ⟨m, hm, heq⟩ | ⟨m, hm, heq⟩
  · obtain rfl := hcut hl' hm heq
    simp only [List.append_nil] at hm
    simp only [List.nil_append, List.cons.injEq, true_and] at heq
    exact ⟨hm.symm, heq⟩
  · obtain rfl := hcut hl hm heq
    simp only [List.append_nil] at hm
    simp only [List.nil_append, List.cons.injEq, true_and] at heq
    exact ⟨hm, heq.symm⟩

/-- What comes before the first blank is told from what follows it. -/
theorem word_cancel {w w' r r' : List Char} (hw : ' ' ∉ w) (hw' : ' ' ∉ w')
    (h : w ++ ' ' :: r = w' ++ ' ' :: r') : w = w' ∧ r = r' := by
  induction w generalizing w' with
  | nil =>
    cases w' with
    | nil => exact ⟨rfl, (List.cons.inj h).2⟩
    | cons d w' =>
      have hd := (List.cons.inj h).1
      exact absurd (hd ▸ List.mem_cons_self ..) hw'
  | cons c w ih =>
    cases w' with
    | nil =>
      have hc := (List.cons.inj h).1
      exact absurd (hc ▸ List.mem_cons_self ..) hw
    | cons d w' =>
      obtain ⟨hc, hrest⟩ := List.cons.inj h
      obtain ⟨rfl, rfl⟩ := ih (fun hm => hw (List.mem_cons_of_mem _ hm))
        (fun hm => hw' (List.mem_cons_of_mem _ hm)) hrest
      exact ⟨by rw [hc], rfl⟩

/-- `"\n".join`. -/
def joined (lines : List (List Char)) : List Char := ['\n'].intercalate lines

theorem joined_injective {xs ys : List (List Char)} (hx : ∀ x ∈ xs, '\n' ∉ x)
    (hy : ∀ y ∈ ys, '\n' ∉ y) (hxs : xs ≠ []) (hys : ys ≠ []) (h : joined xs = joined ys) :
    xs = ys := by
  rw [← List.splitOn_intercalate '\n' hx hxs, ← List.splitOn_intercalate '\n' hy hys]
  exact congrArg (List.splitOn '\n') h

/-! ### Texts and lists of texts as JSON -/

theorem quote_char_eq (c : Char) : Data.quoteChar c = Json.escapeChar c.toNat := by
  have heq : ∀ d : Char, c = d ↔ c.toNat = d.toNat := fun d => Char.toNat_inj.symm
  unfold Data.quoteChar Json.escapeChar
  simp only [heq, Char.ofNat_toNat]
  by_cases h8 : c.toNat = 8
  · rw [h8]
    rfl
  · simp only [if_neg h8]
    rfl

theorem quoted_eq (s : String) : Data.quoted s = Json.quote (Text.ofString s) := by
  simp [Data.quoted, Json.quote, Text.ofString, List.flatMap_map, funext quote_char_eq]

theorem quoted_cancel {s t : String} {r r' : List Char}
    (h : Data.quoted s ++ r = Data.quoted t ++ r') : s = t ∧ r = r' := by
  rw [quoted_eq, quoted_eq] at h
  obtain ⟨ht, hr⟩ := Json.quote_cancel (Json.spelled_of_string s) (Json.spelled_of_string t) h
  exact ⟨text_injective ht, hr⟩

theorem quote_char_line (c : Char) : '\n' ∉ Data.quoteChar c := by
  have hdigit : ∀ n < 16, '\n' ≠ hexDigit n := by decide
  unfold Data.quoteChar
  split
  · decide
  split
  · decide
  split
  · decide
  rename_i hc
  split
  · decide
  split
  · decide
  split
  · decide
  split
  · decide
  split
  · have h16 : '\n' ≠ hexDigit (c.toNat / 16) := hdigit _ (by omega)
    have hm : '\n' ≠ hexDigit (c.toNat % 16) := hdigit _ (by omega)
    simp [h16, hm]
  · simp only [List.mem_singleton]
    exact fun h => hc h.symm

theorem quoted_line (s : String) : '\n' ∉ Data.quoted s := by
  simp only [Data.quoted, List.mem_cons, List.mem_append, List.mem_flatMap, not_or]
  refine ⟨by decide, fun h => ?_, by decide, by simp⟩
  obtain ⟨c, -, hc⟩ := h
  exact quote_char_line c hc

/-- What is shown for a key: a text, or a list of texts. -/
inductive Shown where
  | text (s : String)
  | list (ss : List String)
deriving DecidableEq

namespace Shown

def data : Shown → Data
  | text s => .string s
  | list ss => .list (ss.map Data.string)

theorem elements_line (ss : List String) : '\n' ∉ Data.dumpElements (ss.map Data.string) := by
  induction ss with
  | nil => simp [Data.dumpElements]
  | cons s ss ih =>
    cases ss with
    | nil => exact quoted_line s
    | cons t ss =>
      simp only [List.map_cons, Data.dumpElements] at ih ⊢
      simp only [List.mem_append, List.mem_cons, not_or]
      exact ⟨quoted_line s, by decide, by decide, ih⟩

theorem data_line (v : Shown) : '\n' ∉ v.data.dumpChars := by
  cases v with
  | text s => exact quoted_line s
  | list ss =>
    simp only [data, Data.dumpChars, List.mem_cons, List.mem_append, not_or]
    exact ⟨by decide, elements_line ss, by decide, by simp⟩

theorem quoted_head (s : String) : ∃ cs, Data.quoted s = '"' :: cs := ⟨_, rfl⟩

/-- Lists of texts are told apart, each behind the bracket that closes it. -/
theorem elements_cancel {ss ts : List String}
    (h : Data.dumpElements (ss.map Data.string) ++ [']'] =
      Data.dumpElements (ts.map Data.string) ++ [']']) : ss = ts := by
  induction ss generalizing ts with
  | nil =>
    match ts with
    | [] => rfl
    | [t] =>
      simp [Data.dumpElements, Data.dumpChars, Data.string, Data.dumpScalar, Data.quoted] at h
    | t :: u :: ts =>
      simp [Data.dumpElements, Data.dumpChars, Data.string, Data.dumpScalar, Data.quoted] at h
  | cons s ss ih =>
    match ss, ts with
    | [], [] =>
      simp [Data.dumpElements, Data.dumpChars, Data.string, Data.dumpScalar, Data.quoted] at h
    | s' :: ss, [] =>
      simp [Data.dumpElements, Data.dumpChars, Data.string, Data.dumpScalar, Data.quoted] at h
    | [], [t] =>
      have hquoted : Data.quoted s ++ [']'] = Data.quoted t ++ [']'] := h
      obtain ⟨rfl, -⟩ := quoted_cancel hquoted
      rfl
    | [], t :: u :: ts =>
      simp only [List.map_cons, Data.dumpElements, List.append_assoc] at h
      obtain ⟨-, hr⟩ := quoted_cancel h
      simp at hr
    | s' :: ss, [t] =>
      simp only [List.map_cons, Data.dumpElements, List.append_assoc] at h
      obtain ⟨-, hr⟩ := quoted_cancel h
      simp at hr
    | s' :: ss, t :: u :: ts =>
      simp only [List.map_cons, Data.dumpElements, List.append_assoc] at h
      obtain ⟨rfl, hr⟩ := quoted_cancel h
      simp only [List.cons_append, List.cons.injEq, true_and] at hr
      rw [@ih (u :: ts) hr]

theorem data_injective {v v' : Shown} (h : v.data.dumpChars = v'.data.dumpChars) : v = v' := by
  match v, v' with
  | text s, text t =>
    have happ : Data.quoted s ++ [] = Data.quoted t ++ [] := congrArg (· ++ []) h
    rw [(quoted_cancel happ).1]
  | text s, list ts =>
    obtain ⟨cs, hcs⟩ := quoted_head s
    simp [data, Data.string, Data.dumpChars, Data.dumpScalar, hcs] at h
  | list ss, text t =>
    obtain ⟨cs, hcs⟩ := quoted_head t
    simp [data, Data.string, Data.dumpChars, Data.dumpScalar, hcs] at h
  | list ss, list ts =>
    simp only [data, Data.dumpChars, List.cons.injEq, true_and] at h
    rw [elements_cancel h]

end Shown

end Solvio.Lib
