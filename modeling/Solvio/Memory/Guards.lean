import Mathlib.Data.List.Infix
import Solvio.Memory.Policy

namespace Solvio.Memory
open Solvio.Lib

/-! ### Folded texts -/

/-- What `str.lower` and `unicodedata` read out of their tables. -/
structure Unicode where
  lower : List Char → List Char
  nfkd : List Char → List Char
  combining : Char → Bool

def umlaut (c : Char) : List Char :=
  if c = 'ä' then ['a', 'e'] else if c = 'ö' then ['o', 'e'] else if c = 'ü' then ['u', 'e']
  else if c = 'ß' then ['s', 's'] else [c]

/-- `re.sub` of white space by one blank. -/
def squeeze : List Char → List Char
  | [] => []
  | c :: cs =>
    if isSpace c then
      match squeeze cs with
      | ' ' :: rest => ' ' :: rest
      | rest => ' ' :: rest
    else c :: squeeze cs

/-- `fold`. -/
def fold (U : Unicode) (text : String) : List Char :=
  strip isSpace (squeeze ((U.nfkd ((U.lower text.toList).flatMap umlaut)).filter
    (fun c => !U.combining c)))

def isWordChar (c : Char) : Bool :=
  (97 ≤ c.toNat && c.toNat ≤ 122) || (48 ≤ c.toNat && c.toNat ≤ 57)

/-- Whether a phrase stands at the boundary of a word. The end of a stem need not
be one. -/
def occurs (stem : Bool) (phrase : List Char) : Bool → List Char → Bool
  | _, [] => false
  | inWord, c :: cs =>
    (!inWord && phrase.isPrefixOf (c :: cs) &&
      (stem || !((c :: cs).drop phrase.length).head?.any isWordChar)) ||
    occurs stem phrase (isWordChar c) cs

/-- `_has_phrase`. -/
def hasPhrase (text : List Char) (phrases : List String) : Option String :=
  phrases.find? (fun p => occurs false p.toList false text)

/-- `_has_stem`. -/
def hasStem (text : List Char) (stems : List String) : Option String :=
  stems.find? (fun p => occurs true p.toList false text)

/-- `w.strip(..)` of every word, without those that are empty. -/
def bareWords (text : List Char) : List String :=
  let punctuation := ".,;:!?-\"".toList ++ [Char.ofNat 39]
  (((text.splitOnP isSpace).map (strip (· ∈ punctuation))).filter (· ≠ [])).map String.ofList

namespace Guards

/-- `HYPOTHETICAL`. -/
def hypothetical : List String :=
  ["stell dir vor", "stell dir mal vor", "angenommen", "hypothetisch", "was waere wenn",
    "was waere, wenn", "mal angenommen", "gesetzt den fall", "nehmen wir an", "wenn ich mal",
    "spielen wir durch", "rein theoretisch", "theoretisch koennte", "imagine", "suppose",
    "hypothetically", "what if", "pretend"]

/-- `REPORTED`. -/
def reported : List String :=
  ["er sagt", "sie sagt", "er sagte", "sie sagte", "er meint", "sie meint", "sie sagen",
    "man sagt", "es heisst", "laut", "angeblich", "hat gesagt", "haben gesagt", "hat behauptet",
    "steht geschrieben", "steht da", "steht drin", "im internet", "auf der webseite",
    "in der mail", "in der email", "in dem artikel", "zitat", "schreibt", "geschrieben",
    "he said", "she said", "they say", "according to", "the website says", "quote"]

/-- `THIRD_PARTY`. -/
def thirdParty : List String :=
  ["meine frau", "mein mann", "meine partnerin", "mein partner", "meine freundin", "mein freund",
    "meine mutter", "mein vater", "meine eltern", "meine tochter", "mein sohn", "meine kinder",
    "mein kind", "meine schwester", "mein bruder", "meine kollegin", "mein kollege",
    "meine chefin", "mein chef", "mein nachbar", "meine nachbarin", "mein hund", "meine katze",
    "meine schwiegermutter", "mein schwiegervater", "meine oma", "mein opa", "my wife",
    "my husband", "my partner", "my mother", "my father", "my daughter", "my son", "my sister",
    "my brother", "my colleague", "my boss", "my neighbor", "my neighbour"]

/-- `PAST`. -/
def past : List String :=
  ["frueher", "damals", "als kind", "in der vergangenheit", "seinerzeit", "ehemals", "einst",
    "mochte ich mal", "habe ich mal", "hatte ich mal", "war ich mal", "used to", "back then",
    "i once", "formerly"]

/-- `TRANSIENT`. -/
def transient : List String :=
  ["heute", "gerade", "im moment", "momentan", "jetzt gerade", "soeben", "eben", "gleich",
    "vorhin", "heute abend", "heute morgen", "heute nacht", "gerade eben", "aktuell",
    "in diesem moment", "right now", "today", "at the moment", "currently", "just now"]

/-- `SARCASM`. -/
def sarcasm : List String :=
  ["ja klar", "na klar", "wie toll", "ganz toll", "super toll", "ich liebe es ja",
    "natuerlich liebe ich", "ironie", "sarkasmus", "yeah right", "as if"]

/-- `FIRST_PERSON`. -/
def firstPerson : List String :=
  ["ich", "mir", "mich", "mein", "meine", "meinen", "meinem", "meiner", "meins", "i", "me", "my",
    "mine"]

/-- `SUPERSESSION`. -/
def supersession : List String :=
  ["nicht mehr", "inzwischen", "mittlerweile", "jetzt lieber", "ab jetzt", "ab sofort",
    "neuerdings", "seit neuestem", "doch lieber", "stattdessen", "anymore", "no longer",
    "these days", "now i prefer", "instead"]

/-- `SENSITIVE_LEXICON`. -/
def sensitiveLexicon : List String :=
  ["diagnose", "krankheit", "krank", "diabetes", "krebs", "depression", "therapie", "therapeut",
    "psychiater", "psycholog", "medikament", "tabletten", "arzt", "aerztin", "klinik",
    "krankenhaus", "operation", "schwanger", "hiv", "allergie", "chronisch", "behinderung",
    "sucht", "alkoholiker", "burnout", "angststoerung", "blutdruck", "rezept", "gehalt",
    "einkommen", "schulden", "kredit", "insolvenz", "konto", "kontostand", "iban", "steuer",
    "steuern", "vermoegen", "erbe", "hypothek", "miete zahlen", "pfaendung", "hartz",
    "buergergeld", "anwalt", "anwaeltin", "gericht", "klage", "verfahren", "strafe", "vorstrafe",
    "scheidung", "sorgerecht", "testament", "polizei", "sexuell", "sexualitaet",
    "beziehungsprobleme", "affaere", "therapiesitzung", "trauer", "gestorben", "tod meines",
    "tod meiner", "selbstmord", "suizid", "homosex", "transgender", "abtreibung", "religion",
    "religio", "glaube", "glaeubig", "konfession", "gott", "islam", "muslim", "moschee", "koran",
    "sunnit", "schiit", "scharia", "kopftuch", "christentum", "christlich", "kirche", "bibel",
    "judentum", "juedisch", "juden", "synagoge", "buddhis", "hinduis", "atheis", "politisch",
    "partei", "gewaehlt", "demokrat", "diktatur", "waehler", "migration", "migrant",
    "fluechtling", "asyl", "rassis", "nazi", "faschis", "kommunis", "sozialis", "kapitalis",
    "konservativ", "liberal", "populis", "ideolog", "patriot", "feminis", "gender",
    "klimawandel", "impfpflicht", "verschwoerung", "toleranz"]

/-- `FILLER_ONLY`. -/
def fillerOnly : List String :=
  ["ja", "nein", "ok", "okay", "gut", "danke", "bitte", "hallo", "tschuess", "genau",
    "vielleicht", "hm", "ach", "so", "alles", "klar", "na", "also", "eben", "halt", "mal",
    "schon", "doch"]

/-- `INTERACTION_VERBS`. -/
def interactionVerbs : List String :=
  ["freigegeben", "freigabe", "bestaetigt", "bestaetigen", "zugestimmt", "genehmigt",
    "abgelehnt", "gemerkt", "gespeichert", "geloescht", "vergessen", "korrigiert", "wiederholt",
    "gefragt", "geantwortet", "erlaubt", "quittiert", "face", "id", "approved", "confirmed"]

/-- `_META_FRAME`. -/
def metaFrame : List String :=
  ["der", "die", "das", "besitzer", "nutzer", "er", "sie", "es", "ich", "hat", "habe", "hab",
    "ist", "wurde", "worden", "gerade", "soeben", "eben", "schon", "bereits", "jetzt", "mir",
    "mich", "sein", "seine", "seinen", "mein", "meine", "und", "mit", "per", "via", "dem", "den"]

/-- `GUARDRAIL_WORDS`. -/
def guardrailWords : List String :=
  ["fragen", "frag", "frage", "gefragt", "nachfrage", "nachfragen", "rueckfrage", "rueckfragen",
    "bestaetigung", "bestaetigen", "bestaetigt", "freigabe", "freigaben", "freigeben",
    "genehmigung", "genehmigen", "erlaubnis", "face id", "faceid", "sicherheitsabfrage",
    "warnung", "hinweis", "confirmation", "confirm", "approval", "approve", "ask", "asking",
    "permission"]

/-- `WEAKENING_WORDS`. -/
def weakeningWords : List String :=
  ["nicht", "nie", "niemals", "kein", "keine", "keinen", "keiner", "ohne", "weniger",
    "aufhoeren", "unterlassen", "weglassen", "ueberspringen", "ueberspring", "skip", "spar",
    "erspare", "verzichte", "einfach", "direkt", "sofort", "no", "not", "never", "stop",
    "without", "less"]

/-- `PERMISSIVE_PHRASES`. -/
def permissivePhrases : List String :=
  ["mach einfach", "mach das einfach", "einfach machen", "einfach ausfuehren", "immer erlauben",
    "immer zulassen", "automatisch ausfuehren", "always allow", "just do it", "auto approve",
    "auto-approve"]

end Guards

structure GuardResult where
  ok : Bool
  reason : String := ""
  marker : String := ""
deriving DecidableEq

/-- `owner_self_assertion`. -/
def ownerSelfAssertion (U : Unicode) (text : String) : GuardResult :=
  let folded := fold U text
  if folded = [] then ⟨false, "empty", ""⟩
  else match hasPhrase folded Guards.hypothetical with
  | some marker => ⟨false, "hypothetical", marker⟩
  | none => match hasPhrase folded Guards.reported with
  | some marker => ⟨false, "reported_speech", marker⟩
  | none => match hasPhrase folded Guards.thirdParty with
  | some marker => ⟨false, "third_party", marker⟩
  | none => match hasPhrase folded Guards.sarcasm with
  | some marker => ⟨false, "sarcasm_possible", marker⟩
  | none => match hasPhrase folded Guards.past, hasPhrase folded Guards.supersession with
  | some marker, none => ⟨false, "past", marker⟩
  | _, _ =>
    if hasPhrase folded Guards.firstPerson = none then ⟨false, "no_first_person", ""⟩
    else ⟨true, "", ""⟩

/-- `is_transient`. -/
def isTransient (U : Unicode) (text : String) : GuardResult :=
  match hasPhrase (fold U text) Guards.transient with
  | some marker => ⟨false, "transient", marker⟩
  | none => ⟨true, "", ""⟩

/-- `has_supersession_marker`. -/
def hasSupersessionMarker (U : Unicode) (text : String) : Bool :=
  (hasPhrase (fold U text) Guards.supersession).isSome

/-- `lexical_sensitivity`. -/
def lexicalSensitivity (U : Unicode) (text : String) : Sensitivity :=
  if Guards.sensitiveLexicon.any (fun w => w.toList <:+: fold U text) then .sensitive else .personal

/-- `is_interaction_meta`. -/
def isInteractionMeta (U : Unicode) (statement : String) : GuardResult :=
  match (bareWords (fold U statement)).filter (· ∉ Guards.metaFrame) with
  | [] => ⟨true, "", ""⟩
  | w :: ws =>
    if (w :: ws).all (· ∈ Guards.interactionVerbs) then ⟨false, "interaction_meta", w⟩
    else ⟨true, "", ""⟩

def minStatementChars : Nat := 8
def minStatementWords : Nat := 2
def maxStatementChars : Nat := 400

/-- `is_useful`. -/
def isUseful (U : Unicode) (statement : String) : GuardResult :=
  let text := stripped statement
  let words := bareWords (fold U text)
  if text.toList.length < minStatementChars then ⟨false, "too_short", ""⟩
  else if text.toList.length > maxStatementChars then ⟨false, "too_long", ""⟩
  else if words.length < minStatementWords then ⟨false, "too_few_words", ""⟩
  else if words.all (· ∈ Guards.fillerOnly) then ⟨false, "filler_only", ""⟩
  else if (isTransient U text).ok = false then ⟨false, "transient", (isTransient U text).marker⟩
  else if (isInteractionMeta U text).ok = false then isInteractionMeta U text
  else ⟨true, "", ""⟩

/-- `is_permissive_rule`. -/
def isPermissiveRule (U : Unicode) (text : String) : GuardResult :=
  let folded := fold U text
  match hasPhrase folded Guards.permissivePhrases with
  | some marker => ⟨false, "permissive_rule", marker⟩
  | none =>
    match hasStem folded Guards.guardrailWords, hasStem folded Guards.weakeningWords with
    | some guardrail, some weaken => ⟨false, "permissive_rule", weaken ++ "+" ++ guardrail⟩
    | _, _ => ⟨true, "", ""⟩

/-- The texts of the policy, by its own word lists. -/
def policyTexts (U : Unicode) (rest : Texts) : Texts :=
  { rest with
    ownerSelfAssertion := fun text => (ownerSelfAssertion U text).ok
    hasSupersessionMarker := hasSupersessionMarker U
    lexicalSensitivity := lexicalSensitivity U
    isUseful := fun statement => (isUseful U statement).ok
    isPermissiveRule := fun text => !(isPermissiveRule U text).ok }

/-! ### What an adoption rests on -/

/-- A text in which the guards have seen an assertion of the owner about himself. -/
structure Asserted (U : Unicode) (text : String) : Prop where
  hypothetical : hasPhrase (fold U text) Guards.hypothetical = none
  reported : hasPhrase (fold U text) Guards.reported = none
  thirdParty : hasPhrase (fold U text) Guards.thirdParty = none
  sarcasm : hasPhrase (fold U text) Guards.sarcasm = none
  past : hasPhrase (fold U text) Guards.past = none ∨
    hasPhrase (fold U text) Guards.supersession ≠ none
  firstPerson : hasPhrase (fold U text) Guards.firstPerson ≠ none

theorem owner_asserted {U : Unicode} {text : String}
    (h : (ownerSelfAssertion U text).ok = true) : Asserted U text := by
  unfold ownerSelfAssertion at h
  simp only at h
  split at h
  · cases h
  split at h
  · cases h
  rename_i hhypothetical
  split at h
  · cases h
  rename_i hreported
  split at h
  · cases h
  rename_i hthird
  split at h
  · cases h
  rename_i hsarcasm
  split at h
  · cases h
  rename_i hpast
  split at h
  · cases h
  rename_i hfirst
  refine ⟨hhypothetical, hreported, hthird, hsarcasm, ?_, hfirst⟩
  by_contra hno
  obtain ⟨hmarker, hnone⟩ := not_or.mp hno
  obtain ⟨marker, hmarker⟩ := Option.ne_none_iff_exists'.mp hmarker
  exact hpast marker hmarker (not_not.mp hnone)

/-- The sensitivity of a proposal, of which the lexicon and the label are a part. -/
def combined (U : Unicode) (proposal : Proposal) (turn : OwnerTurn) : Sensitivity :=
  .strictest [lexicalSensitivity U proposal.statement, lexicalSensitivity U turn.text,
    proposal.sensitivity]

/-- Whether a proposal of this kind is learned without a question. -/
def MemoryType.automatic (t : MemoryType) : Kind → Bool
  | .stated => t.autoStated
  | .inferred => t.autoInferred

/-- What an adoption rests on. Where it replaces what was learned, it rests on the
word of the owner; elsewhere on a proposal that is not sensitive. -/
structure Grounds (U : Unicode) (proposal : Proposal) (turn : OwnerTurn) (conversations : Nat)
    (suppressed secretHit : Bool) (conflict : Option Conflict) : Prop where
  secret : secretHit = false
  kept : suppressed = false
  flags : ∀ f ∈ proposal.flags, f.blocks = false
  category : proposal.memoryType.automatic proposal.kind = true
  label : combined U proposal turn ≠ .secretReference
  useful : (isUseful U proposal.statement).ok = true
  owner : proposal.about ≠ .world
  people : proposal.about = .thirdParty → proposal.memoryType = .people
  asserted : proposal.about = .self → Asserted U turn.text
  plain : conflict = none → (combined U proposal turn).rank < Sensitivity.sensitive.rank
  replaces : ∀ c, conflict = some c → proposal.kind = .stated ∧ ∃ id, c = .target id false
  pattern : proposal.kind = .inferred → inferredMinConversations ≤ conversations

/-- The checks in front of the contradiction. -/
structure Passes (T : Texts) (proposal : Proposal) (turn : OwnerTurn) (suppressed secretHit : Bool) :
    Prop where
  secret : secretHit = false
  kept : suppressed = false
  flags : proposal.flags.any Flag.blocks = false
  planned : proposal.memoryType.notInV1 = false
  owner : proposal.about ≠ .world
  asserted : ¬ (proposal.about ≠ .thirdParty ∧ T.ownerSelfAssertion turn.text = false)
  people : ¬ (proposal.about = .thirdParty ∧ proposal.memoryType ≠ .people)
  label : Sensitivity.strictest [T.lexicalSensitivity proposal.statement,
    T.lexicalSensitivity turn.text, proposal.sensitivity] ≠ .secretReference
  useful : ¬ T.isUseful proposal.statement = false
  silent : ¬ proposal.memoryType.askOnly = true

section decide
variable {T : Texts} {proposal : Proposal} {turn : OwnerTurn} {conversations : Nat}
  {suppressed secretHit : Bool} {conflict : Option Conflict}

/-- What is decided about a proposal that has passed. -/
def decidePassed (proposal : Proposal) (sensitivity : Sensitivity) (conversations : Nat) :
    Option Conflict → Decision
  | some c => decideConflict proposal sensitivity c
  | none => decideEvidence proposal sensitivity conversations

theorem decide_passed (h : Passes T proposal turn suppressed secretHit) :
    T.decide proposal turn conversations suppressed secretHit conflict =
      decidePassed proposal (Sensitivity.strictest [T.lexicalSensitivity proposal.statement,
        T.lexicalSensitivity turn.text, proposal.sensitivity]) conversations conflict := by
  simp only [Texts.decide, h.secret, h.kept, h.flags, h.planned, Bool.false_eq_true, if_false,
    if_neg h.owner, if_neg h.asserted, if_neg h.people, if_neg h.label, if_neg h.useful,
    if_neg h.silent]
  cases conflict <;> rfl

/-- Whatever does not pass is not adopted. -/
theorem passes_of_adopt
    (h : (T.decide proposal turn conversations suppressed secretHit conflict).action = .adopt) :
    Passes T proposal turn suppressed secretHit := by
  rw [Texts.decide] at h
  by_cases hsecret : secretHit = true
  · rw [if_pos hsecret] at h
    cases h
  rw [if_neg hsecret] at h
  by_cases hkept : suppressed = true
  · rw [if_pos hkept] at h
    cases h
  rw [if_neg hkept] at h
  by_cases hflags : proposal.flags.any Flag.blocks = true
  · rw [if_pos hflags] at h
    cases h
  rw [if_neg hflags] at h
  by_cases hplanned : proposal.memoryType.notInV1 = true
  · rw [if_pos hplanned] at h
    cases h
  rw [if_neg hplanned] at h
  by_cases howner : proposal.about = .world
  · rw [if_pos howner] at h
    cases h
  rw [if_neg howner] at h
  by_cases hasserted : proposal.about ≠ .thirdParty ∧ T.ownerSelfAssertion turn.text = false
  · rw [if_pos hasserted] at h
    cases h
  rw [if_neg hasserted] at h
  by_cases hpeople : proposal.about = .thirdParty ∧ proposal.memoryType ≠ .people
  · rw [if_pos hpeople] at h
    cases h
  rw [if_neg hpeople] at h
  by_cases hlabel : Sensitivity.strictest [T.lexicalSensitivity proposal.statement,
    T.lexicalSensitivity turn.text, proposal.sensitivity] = .secretReference
  · simp only [if_pos hlabel] at h
    cases h
  simp only [if_neg hlabel] at h
  by_cases huseful : T.isUseful proposal.statement = false
  · rw [if_pos huseful] at h
    cases h
  rw [if_neg huseful] at h
  by_cases hsilent : proposal.memoryType.askOnly = true
  · rw [if_pos hsilent] at h
    split at h <;> cases h
  exact ⟨by simpa using hsecret, by simpa using hkept, by simpa using hflags, by simpa using hplanned,
    howner, hasserted, hpeople, hlabel, huseful, hsilent⟩

theorem adopt_conflict {sensitivity : Sensitivity} {c : Conflict}
    (h : (decideConflict proposal sensitivity c).action = .adopt) :
    proposal.kind = .stated ∧ ∃ id, c = .target id false := by
  unfold decideConflict at h
  split at h
  · cases h
  · split at h
    · cases h
    · rename_i id userDirect hdirect
      split at h
      · rename_i hkind
        exact ⟨hkind, id, by simpa using hdirect⟩
      · cases h

theorem adopt_evidence {sensitivity : Sensitivity}
    (h : (decideEvidence proposal sensitivity conversations).action = .adopt) :
    sensitivity ≠ .sensitive ∧ proposal.memoryType.automatic proposal.kind = true ∧
      (proposal.kind = .inferred → inferredMinConversations ≤ conversations) := by
  unfold decideEvidence at h
  split at h
  · cases h
  rename_i hsensitive
  refine ⟨hsensitive, ?_⟩
  split at h
  · rename_i hkind
    split at h
    · rename_i hauto
      rw [hkind]
      exact ⟨hauto, fun hinferred => by cases hinferred⟩
    · cases h
  · rename_i hkind
    rw [hkind]
    split at h
    · cases h
    rename_i hauto
    split at h
    · cases h
    rename_i hmany
    exact ⟨by simpa [MemoryType.automatic] using hauto, fun _ => Nat.not_lt.mp hmany⟩

/-- Every type that neither waits for a question nor for a later version is learned
from what the owner has stated. -/
theorem auto_stated {t : MemoryType} (hplanned : t.notInV1 = false) (hsilent : ¬ t.askOnly = true) :
    t.autoStated = true := by
  cases t <;> first | rfl | exact absurd rfl hsilent | cases hplanned

theorem rank_strictest (a b c : Sensitivity) :
    (Sensitivity.strictest [a, b, c]).rank = max a.rank (max b.rank c.rank) := by
  cases a <;> cases b <;> cases c <;> rfl

theorem rank_below {s : Sensitivity} : s.rank < Sensitivity.sensitive.rank ↔
    s ≠ .secretReference ∧ s ≠ .sensitive := by
  cases s <;> decide

theorem rank_secret {s : Sensitivity} : s ≠ .secretReference ↔ s.rank < 3 := by
  cases s <;> decide

end decide

/-- What is adopted rests on its grounds. -/
theorem adopt_grounds {U : Unicode} {rest : Texts} {proposal : Proposal} {turn : OwnerTurn}
    {conversations : Nat} {suppressed secretHit : Bool} {conflict : Option Conflict}
    (h : ((policyTexts U rest).decide proposal turn conversations suppressed secretHit
      conflict).action = .adopt) :
    Grounds U proposal turn conversations suppressed secretHit conflict := by
  have hp := passes_of_adopt h
  rw [decide_passed hp] at h
  have hasserted : proposal.about = .self → Asserted U turn.text := by
    intro hself
    apply owner_asserted
    by_contra hno
    refine hp.asserted ⟨by rw [hself]; exact About.noConfusion, ?_⟩
    change (ownerSelfAssertion U turn.text).ok = false
    simpa using hno
  have hflags : ∀ f ∈ proposal.flags, f.blocks = false := by simpa using hp.flags
  have hpeople : proposal.about = .thirdParty → proposal.memoryType = .people := fun hthird => by
    by_contra hno
    exact hp.people ⟨hthird, hno⟩
  have huseful : (isUseful U proposal.statement).ok = true := by simpa [policyTexts] using hp.useful
  have hlabel : combined U proposal turn ≠ .secretReference := hp.label
  cases conflict with
  | none =>
    obtain ⟨hsensitive, hauto, hpattern⟩ := adopt_evidence h
    exact ⟨hp.secret, hp.kept, hflags, hauto, hlabel, huseful, hp.owner, hpeople, hasserted,
      fun _ => Iff.mpr rank_below ⟨hlabel, hsensitive⟩, fun _ hc => (by cases hc), hpattern⟩
  | some c =>
    obtain ⟨hstated, hid⟩ := adopt_conflict h
    refine ⟨hp.secret, hp.kept, hflags, ?_, hlabel, huseful, hp.owner, hpeople, hasserted,
      fun hc => (by cases hc), fun d hd => ?_, fun hinferred => ?_⟩
    · rw [hstated]
      exact auto_stated hp.planned hp.silent
    · obtain rfl := Option.some.inj hd
      exact ⟨hstated, hid⟩
    · rw [hstated] at hinferred
      cases hinferred

/-- A proposal that is adopted with more flags and a stricter label is adopted without them. -/
theorem adopt_looser {T : Texts} {proposal : Proposal} {turn : OwnerTurn} {conversations : Nat}
    {suppressed secretHit : Bool} {conflict : Option Conflict} {flags : List Flag}
    {label : Sensitivity} (hflags : proposal.flags ⊆ flags)
    (hlabel : proposal.sensitivity.rank ≤ label.rank)
    (h : (T.decide { proposal with flags := flags, sensitivity := label } turn conversations
      suppressed secretHit conflict).action = .adopt) :
    (T.decide proposal turn conversations suppressed secretHit conflict).action = .adopt := by
  have hp := passes_of_adopt h
  rw [decide_passed hp] at h
  have hrank : (Sensitivity.strictest [T.lexicalSensitivity proposal.statement,
      T.lexicalSensitivity turn.text, proposal.sensitivity]).rank ≤
      (Sensitivity.strictest [T.lexicalSensitivity proposal.statement,
        T.lexicalSensitivity turn.text, label]).rank := by
    rw [rank_strictest, rank_strictest]
    omega
  have hq : Passes T proposal turn suppressed secretHit := by
    refine ⟨hp.secret, hp.kept, ?_, hp.planned, hp.owner, hp.asserted, hp.people, ?_, hp.useful,
      hp.silent⟩
    · have hall : ∀ f ∈ flags, f.blocks = false := by simpa using hp.flags
      simpa using fun f hf => hall f (hflags hf)
    · exact Iff.mpr rank_secret (Nat.lt_of_le_of_lt hrank (Iff.mp rank_secret hp.label))
  rw [decide_passed hq]
  cases conflict with
  | some c =>
    obtain ⟨hstated, id, rfl⟩ := adopt_conflict h
    simp only at hstated
    simp [decidePassed, decideConflict, hstated]
  | none =>
    obtain ⟨hsensitive, hauto, hpattern⟩ := adopt_evidence h
    have hbelow := Nat.lt_of_le_of_lt hrank (Iff.mpr rank_below ⟨hp.label, hsensitive⟩)
    simp only [decidePassed, decideEvidence, if_neg (Iff.mp rank_below hbelow).2]
    simp only [MemoryType.automatic] at hauto hpattern
    cases hk : proposal.kind with
    | stated =>
      simp only [hk] at hauto
      simp [hauto]
    | inferred =>
      simp only [hk] at hauto hpattern
      simp [hauto, Nat.not_lt.mpr (hpattern trivial)]

/-- A text that lacks a letter of every word of the lexicon. -/
theorem personal_of_letters {U : Unicode} {text : String} {folded : List Char}
    (hfold : fold U text = folded)
    (h : Guards.sensitiveLexicon.all (fun w => w.toList.any (· ∉ folded)) = true) :
    lexicalSensitivity U text = .personal := by
  rw [lexicalSensitivity, hfold, if_neg]
  rw [List.any_eq_true]
  rintro ⟨w, hw, hinfix⟩
  obtain ⟨c, hc, hnot⟩ := List.any_eq_true.mp (List.all_eq_true.mp h w hw)
  exact absurd ((of_decide_eq_true hinfix).subset hc) (by simpa using hnot)

/-- The model can stop an adoption, but it never waves one through. -/
theorem adopt_rests_on_grounds (U : Unicode) (rest : Texts) (proposal : Proposal) (turn : OwnerTurn)
    (conversations : Nat) (suppressed secretHit : Bool) (conflict : Option Conflict) :
    (((policyTexts U rest).decide proposal turn conversations suppressed secretHit
      conflict).action = .adopt →
        Grounds U proposal turn conversations suppressed secretHit conflict) ∧
    ∀ flags label, proposal.flags ⊆ flags → proposal.sensitivity.rank ≤ label.rank →
      ((policyTexts U rest).decide { proposal with flags := flags, sensitivity := label } turn
        conversations suppressed secretHit conflict).action = .adopt →
      ((policyTexts U rest).decide proposal turn conversations suppressed secretHit
        conflict).action = .adopt :=
  ⟨adopt_grounds, fun _ _ => adopt_looser⟩

namespace Sample

/-- Tables that know the letters of ASCII. -/
def unicode : Unicode := ⟨asciiLower, id, fun _ => false⟩

/-- What the word lists do not decide. -/
def rest : Texts where
  looksLikeSecret := fun _ => false
  dedupKey := id
  subjectOf := id
  ownerSelfAssertion := fun _ => false
  hasSupersessionMarker := fun _ => false
  lexicalSensitivity := fun _ => .personal
  isUseful := fun _ => false
  isPermissiveRule := fun _ => true

/-- A fact about somebody else, out of a reported sentence. -/
def told : Proposal :=
  { statement := "er sagt ja", kind := .stated, memoryType := .people, subject := "anna"
    about := .thirdParty }

def reportedTurn : OwnerTurn := { text := "er sagt ja", channel := "voice_iphone" }

theorem told_folded : fold unicode "er sagt ja" = "er sagt ja".toList := by decide +kernel

theorem told_personal : lexicalSensitivity unicode "er sagt ja" = .personal :=
  personal_of_letters told_folded (by decide +kernel)

theorem told_useful : (isUseful unicode told.statement).ok = true := by
  decide +kernel

theorem told_passes : Passes (policyTexts unicode rest) told reportedTurn false false := by
  refine ⟨rfl, rfl, rfl, rfl, About.noConfusion, fun h => h.1 rfl, fun h => h.2 rfl, ?_, ?_,
    Bool.false_ne_true⟩
  · rw [rank_secret, rank_strictest]
    simp only [policyTexts, told, reportedTurn, told_personal]
    decide
  · simp only [policyTexts, told_useful]
    exact Bool.true_eq_false.mp

theorem told_adopted : ((policyTexts unicode rest).decide told reportedTurn 0 false false
    none).action = .adopt := by
  rw [decide_passed told_passes]
  simp only [policyTexts, told, reportedTurn, told_personal]
  rfl

end Sample

theorem adopt_rests_on_grounds_sample :
    Grounds Sample.unicode Sample.told Sample.reportedTurn 0 false false none :=
  (adopt_rests_on_grounds Sample.unicode Sample.rest Sample.told Sample.reportedTurn 0 false false
    none).1 Sample.told_adopted

/-- A fact about somebody else is adopted out of reported speech. -/
theorem reported_adopted : ¬ ∀ (U : Unicode) (rest : Texts) (proposal : Proposal)
    (turn : OwnerTurn) (conversations : Nat) (suppressed secretHit : Bool)
    (conflict : Option Conflict),
    ((policyTexts U rest).decide proposal turn conversations suppressed secretHit
      conflict).action = .adopt → (ownerSelfAssertion U turn.text).ok = true := by
  intro hall
  have hok := hall _ _ _ _ _ _ _ _ Sample.told_adopted
  have hasserted := (owner_asserted hok).reported
  rw [Sample.reportedTurn, Sample.told_folded] at hasserted
  exact absurd hasserted (by decide)

end Solvio.Memory
