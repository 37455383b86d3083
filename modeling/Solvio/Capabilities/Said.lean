import Solvio.Capabilities.Phrases

namespace Solvio.Capabilities.Described
open Solvio.Lib Solvio.Proactive Background

/-! ### What a phrase says -/

/-- What a phrase says about when, whatever the clock shows. -/
inductive Said where
  | silent
  | illegible
  | delay (seconds : Nat)
  | interval (seconds : Nat)
  | weekly (days : List Nat) (hour minute : Nat)
  | daily (hour minute : Nat) (assumed : Bool)
deriving DecidableEq

variable (R : Script)

def saidAtClock (low : String) : Said :=
  let named := clock R low
  let spoken := spokenClock low
  let at_ := (named.or spoken).getD (7, 30)
  if daysIn low ≠ [] then .weekly (daysIn low) at_.1 at_.2
  else if dailyWords.any (fun w => within w low) then .daily at_.1 at_.2 false
  else if named.isSome || spoken.isSome then .daily at_.1 at_.2 true
  else .silent

/-- What a number with its unit says, or else what the rest does. -/
def orSaid (number : Option String) (form : Nat → Said) (rest : Said) : Said :=
  match quantity R number with
  | .error _ => .illegible
  | .ok (some n) => form n
  | .ok none => rest

def said (text : String) : Said :=
  let low := R.lower (stripped text)
  if low = "" then .silent
  else
    orSaid R (span R "in" minuteUnits low) (fun n => .delay (n * 60)) <|
    orSaid R (span R "in" hourUnits low) (fun n => .delay (n * 3600)) <|
    orSaid R (span R "alle" minuteUnits low) (fun n => .interval (n * 60)) <|
    orSaid R (span R "alle" hourUnits low) (fun n => .interval (n * 3600)) <|
    saidAtClock R low

namespace Said

/-- The plan and the note that come of it. -/
def plan (now : Rat) : Said → Except Raised (Option Schedule × String)
  | silent => .ok (none, "")
  | illegible => .error .valueError
  | delay seconds => (Background.inSeconds seconds now).map (fun p => (some p, ""))
  | interval seconds => clamped seconds
  | weekly days hour minute =>
    (make (Proactive.weekly days hour minute)).map (fun p => (some p, ""))
  | daily hour minute assumed => (make (Proactive.daily hour minute)).map
      (fun p => (some p, if assumed then assumedDaily else ""))

/-- The fields of the plan. -/
def rule (now : Rat) : Said → Option Rule
  | silent => none
  | illegible => none
  | delay seconds => some (Proactive.inSeconds seconds now)
  | interval seconds => some (every (clampInterval seconds).1)
  | weekly days hour minute => some (Proactive.weekly days hour minute)
  | daily hour minute _ => some (Proactive.daily hour minute)

def kind : Said → Option Kind
  | silent => none
  | illegible => none
  | delay _ => some .oneShot
  | interval _ => some .interval
  | weekly _ _ _ => some .weekly
  | daily _ _ _ => some .daily

def note : Said → String
  | interval seconds => (clampInterval seconds).2
  | daily _ _ true => assumedDaily
  | _ => ""

/-- The numbers are legible and the time is a time of the day. -/
def Sound : Said → Prop
  | silent => True
  | illegible => False
  | delay seconds => seconds < floatLimit
  | interval _ => True
  | weekly _ hour minute => hour ≤ 23 ∧ minute ≤ 59
  | daily hour minute _ => hour ≤ 23 ∧ minute ≤ 59

/-- As much of it as the description shows beside the words. -/
def shown : Said → Said
  | delay _ => delay 0
  | interval seconds => if seconds < 300 then interval 0 else interval seconds
  | s => s

end Said

/-! ### A plan is what the phrase says -/

variable {R}

theorem quantity_error {number : Option String} {e : Raised} (h : quantity R number = .error e) :
    e = .valueError := by
  cases number with
  | none => cases h
  | some text =>
    simp only [quantity, zahl, Background.int] at h
    split at h
    · split at h
      · cases h
      · cases h
        rfl
    · cases h

/-- A number comes first, and the rest only if there is none. -/
theorem or_said {number : Option String} {form : Nat → Said} {rest : Said} {now : Rat}
    {f : Nat → Except Raised (Option Schedule × String)}
    {g : Except Raised (Option Schedule × String)} (hform : ∀ n, f n = (form n).plan now)
    (hrest : g = rest.plan now) :
    (do
      match ← quantity R number with
      | some n => f n
      | _ => g) = (orSaid R number form rest).plan now := by
  unfold orSaid
  cases hq : quantity R number with
  | error e =>
    rw [quantity_error hq]
    rfl
  | ok n =>
    cases n with
    | none => exact hrest
    | some n => exact hform n

theorem bind_map {α β : Type} (x : Except Raised α) (f : α → β) :
    (do
      let a ← x
      pure (f a)) = x.map f := by
  cases x <;> rfl

theorem at_clock_said (low : String) (now : Rat) :
    atClock R low = (saidAtClock R low).plan now := by
  unfold atClock saidAtClock
  dsimp only
  split
  · exact bind_map ..
  · split
    · exact bind_map ..
    · split
      · exact bind_map ..
      · rfl

theorem parse_said (text : String) (now : Rat) : parseWhen R text now = (said R text).plan now := by
  unfold parseWhen said
  dsimp only
  by_cases hlow : R.lower (stripped text) = ""
  · simp [hlow, Said.plan]
    rfl
  · simp only [hlow, if_false]
    refine or_said (fun n => bind_map ..) (or_said (fun n => bind_map ..)
      (or_said (fun n => rfl) (or_said (fun n => rfl) (at_clock_said ..))))

theorem said_stripped (text : String) : said R (stripped text) = said R text := by
  simp [said]

theorem make_ok {r : Rule} {p : Schedule} : make r = .ok p ↔ p.toRule = r := by
  unfold make Schedule.make
  by_cases hr : r.Valid
  · simp only [hr, dif_pos, Except.ok.injEq]
    constructor
    · rintro rfl
      rfl
    · rintro rfl
      rfl
  · simp only [hr, dif_neg, not_false_eq_true, reduceCtorEq, false_iff]
    rintro rfl
    exact hr p.valid

theorem make_valid {r : Rule} (h : r.Valid) : make r = .ok ⟨r, h⟩ := make_ok.mpr rfl

theorem make_invalid {r : Rule} (h : ¬ r.Valid) : make r = .error .scheduleError := by
  simp [make, Schedule.make, h]

theorem map_ok {α β : Type} {x : Except Raised α} {f : α → β} {b : β} (h : x.map f = .ok b) :
    ∃ a, x = .ok a ∧ f a = b := by
  cases x with
  | error e => cases h
  | ok a => exact ⟨a, rfl, Except.ok.inj h⟩

namespace Said

variable {s : Said} {now : Rat} {p : Schedule} {words : String}

theorem plan_some (h : s.plan now = .ok (some p, words)) :
    s.rule now = some p.toRule ∧ words = s.note := by
  cases s with
  | silent => cases h
  | illegible => cases h
  | delay seconds =>
    obtain ⟨q, hq, hp⟩ := map_ok h
    cases hp
    unfold Background.inSeconds at hq
    split at hq
    · cases hq
    · split at hq
      · rename_i hmake
        cases hq
        have hrule := Iff.mp make_ok (show make _ = .ok p by rw [make, hmake])
        exact ⟨congrArg some hrule.symm, rfl⟩
      · cases hq
  | interval seconds =>
    obtain ⟨q, hq, hp⟩ := map_ok (show (make _).map _ = _ from (bind_map ..).symm.trans h)
    cases hp
    exact ⟨congrArg some (Iff.mp make_ok hq).symm, rfl⟩
  | weekly days hour minute =>
    obtain ⟨q, hq, hp⟩ := map_ok h
    cases hp
    exact ⟨congrArg some (Iff.mp make_ok hq).symm, rfl⟩
  | daily hour minute assumed =>
    obtain ⟨q, hq, hp⟩ := map_ok h
    cases hp
    refine ⟨congrArg some (Iff.mp make_ok hq).symm, ?_⟩
    cases assumed <;> rfl

/-- A delay takes its time, and the days are days of the week. -/
def Formed : Said → Prop
  | delay seconds => 0 < seconds
  | weekly days _ _ => days ≠ [] ∧ ∀ d ∈ days, d ≤ 6
  | _ => True

theorem rule_valid {r : Rule} (hnow : 0 ≤ now) (hs : s.Formed) (sound : s.Sound)
    (h : s.rule now = some r) : r.Valid := by
  cases s with
  | silent => cases h
  | illegible => cases h
  | delay seconds =>
    cases h
    refine ⟨by simp [Proactive.inSeconds], by simp [Proactive.inSeconds],
      by simp [Proactive.inSeconds], by simp [Proactive.inSeconds], fun _ => ?_⟩
    have hone : (1 : Rat) ≤ max 1 (seconds : Rat) := le_max_left ..
    simp only [Proactive.inSeconds]
    linarith
  | interval seconds =>
    cases h
    refine ⟨by simp [every], by simp [every], by simp [every], fun _ => ?_, by simp [every]⟩
    simp only [every, clampInterval]
    split
    · assumption
    · exact le_refl _
  | weekly days hour minute =>
    cases h
    obtain ⟨hhour, hminute⟩ := sound
    refine ⟨fun _ => ?_, fun _ => hs.1, hs.2, by simp [Proactive.weekly], by simp [Proactive.weekly]⟩
    simp only [Proactive.weekly]
    omega
  | daily hour minute assumed =>
    cases h
    obtain ⟨hhour, hminute⟩ := sound
    refine ⟨fun _ => ?_, by simp [Proactive.daily], by simp [Proactive.daily],
      by simp [Proactive.daily], by simp [Proactive.daily]⟩
    simp only [Proactive.daily]
    omega

/-- A sound phrase makes its plan. -/
theorem plan_sound (hnow : 0 ≤ now) (hs : s.Formed) (sound : s.Sound) (spoken : s ≠ silent) :
    ∃ p, s.plan now = .ok (some p, s.note) := by
  have hvalid := fun r => rule_valid (r := r) hnow hs sound
  cases s with
  | silent => exact absurd rfl spoken
  | illegible => exact sound.elim
  | delay seconds =>
    have hv := hvalid _ rfl
    refine ⟨⟨_, hv⟩, ?_⟩
    have hlimit : ¬ floatLimit ≤ seconds := Nat.not_le.mpr sound
    simp only [plan, Background.inSeconds, hlimit, if_false, Schedule.make, hv, dif_pos]
    rfl
  | interval seconds =>
    refine ⟨⟨_, hvalid _ rfl⟩, ?_⟩
    simp only [plan, clamped, make_valid (hvalid _ rfl)]
    rfl
  | weekly days hour minute =>
    refine ⟨⟨_, hvalid _ rfl⟩, ?_⟩
    simp only [plan, make_valid (hvalid _ rfl)]
    rfl
  | daily hour minute assumed =>
    refine ⟨⟨_, hvalid _ rfl⟩, ?_⟩
    simp only [plan, make_valid (hvalid _ rfl)]
    cases assumed <;> rfl

/-- And one that is not sound raises something else than that it is declined. -/
theorem plan_unsound (s : Said) (now : Rat) (unsound : ¬ s.Sound) :
    ∃ e, s.plan now = .error e ∧ e ≠ .credentialRefused ∧ ∀ reason, e ≠ .declined reason := by
  cases s with
  | silent => exact absurd trivial unsound
  | illegible => exact ⟨.valueError, rfl, by simp, by simp⟩
  | delay seconds =>
    refine ⟨.overflowError, ?_, by simp, by simp⟩
    simp only [plan, Background.inSeconds, Nat.not_lt.mp unsound, if_true]
    rfl
  | interval seconds => exact absurd trivial unsound
  | weekly days hour minute =>
    refine ⟨.scheduleError, ?_, by simp, by simp⟩
    have hbad : ¬ (Proactive.weekly days hour minute).Valid := by
      intro hv
      have := hv.clock (.inr rfl)
      simp only [Proactive.weekly] at this
      exact unsound ⟨by omega, by omega⟩
    simp only [plan, make_invalid hbad]
    rfl
  | daily hour minute assumed =>
    refine ⟨.scheduleError, ?_, by simp, by simp⟩
    have hbad : ¬ (Proactive.daily hour minute).Valid := by
      intro hv
      have := hv.clock (.inl rfl)
      simp only [Proactive.daily] at this
      exact unsound ⟨by omega, by omega⟩
    simp only [plan, make_invalid hbad]
    rfl

end Said

theorem quantity_pos {number : Option String} {n : Nat} (h : quantity R number = .ok (some n)) :
    0 < n := by
  cases number with
  | none => cases h
  | some text =>
    obtain ⟨m, -, hm⟩ := map_ok h
    obtain ⟨-, hne⟩ := Option.filter_eq_some_iff.mp hm
    simp only [decide_eq_true_eq] at hne
    omega

theorem or_said_formed {number : Option String} {form : Nat → Said} {rest : Said}
    (hform : ∀ n, 0 < n → (form n).Formed) (hrest : rest.Formed) :
    (orSaid R number form rest).Formed := by
  unfold orSaid
  split
  · trivial
  · rename_i hn
    exact hform _ (quantity_pos hn)
  · exact hrest

theorem said_formed (text : String) : (said R text).Formed := by
  unfold said
  dsimp only
  split
  · trivial
  · refine or_said_formed (fun n hn => Nat.mul_pos hn (by decide))
      (or_said_formed (fun n hn => Nat.mul_pos hn (by decide))
      (or_said_formed (fun _ _ => trivial) (or_said_formed (fun _ _ => trivial) ?_)))
    unfold saidAtClock
    dsimp only
    split
    · rename_i hdays
      refine ⟨hdays, fun d hd => ?_⟩
      obtain ⟨day, hday, rfl⟩ := List.mem_map.mp hd
      have hall : ∀ day ∈ dayNames, day.2 ≤ 6 := by decide
      exact hall day (List.mem_filter.mp hday).1
    · split
      · trivial
      · split <;> trivial

/-! ### How a plan looks -/

theorem clock_same {h m h' m' : Nat} (hh : h < 60) (hm : m < 60) (hh' : h' < 60) (hm' : m' < 60)
    (heq : twoDigits h ++ ":" ++ twoDigits m = twoDigits h' ++ ":" ++ twoDigits m') :
    h = h' ∧ m = m' := by
  have hlist := congrArg String.toList heq
  simp only [String.toList_append] at hlist
  have hlen : ((twoDigits h).toList ++ ":".toList).length =
      ((twoDigits h').toList ++ ":".toList).length := by
    have hl := two_digits_length ⟨h, hh⟩
    have hl' := two_digits_length ⟨h', hh'⟩
    simp only [List.length_append, String.length_toList] at hl hl' ⊢
    omega
  obtain ⟨hleft, hright⟩ := List.append_inj hlist hlen
  have hhour := two_digits_same ⟨h, hh⟩ ⟨h', hh'⟩
    (String.toList_injective (List.append_cancel_right hleft))
  have hminute := two_digits_same ⟨m, hm⟩ ⟨m', hm'⟩ (String.toList_injective hright)
  exact ⟨congrArg Fin.val hhour, congrArg Fin.val hminute⟩

/-- The part of a description that comes of the plan. -/
structure SameTimes (r r' : Rule) (note note' : String) : Prop where
  kind : r.kind = r'.kind
  clock : r.kind = .daily ∨ r.kind = .weekly →
    twoDigits r.hour ++ ":" ++ twoDigits r.minute = twoDigits r'.hour ++ ":" ++ twoDigits r'.minute
  days : r.kind = .weekly → r.weekdays = r'.weekdays
  distance : r.kind = .interval → r.everySeconds = r'.everySeconds
  note : note = note'

theorem kind_value {k k' : Kind} (h : k.value = k'.value) : k = k' := by
  cases k <;> cases k' <;> first | rfl | exact absurd h (by decide)

/-- Every interval that is too short becomes the same one, and is told so. -/
theorem clamped_short : ∃ words, words ≠ "" ∧
    ∀ n : Nat, n < 300 → clampInterval n = (minIntervalSeconds, words) := by
  refine ⟨_, ?_, fun n hn => if_neg ?_⟩
  · intro h
    exact absurd (congrArg String.length h) (by simp)
  · unfold minIntervalSeconds
    omega

theorem clamped_long {n : Nat} (h : 300 ≤ n) : clampInterval n = (↑n, "") := by
  refine if_pos ?_
  unfold minIntervalSeconds
  omega

theorem interval_same (n m : Nat) : clampInterval n = clampInterval m ↔
    (Said.interval n).shown = (Said.interval m).shown := by
  obtain ⟨words, hwords, hshort⟩ := clamped_short
  by_cases hn : n < 300 <;> by_cases hm : m < 300
  · simp [Said.shown, hn, hm, hshort]
  · have hne : (0 : Nat) ≠ m := by omega
    simp [Said.shown, hn, hm, hshort, clamped_long (Nat.not_lt.mp hm), hwords, hne]
  · have hne : n ≠ 0 := by omega
    simp [Said.shown, hn, hm, hshort, clamped_long (Nat.not_lt.mp hn), Ne.symm hwords, hne]
  · simp [Said.shown, hn, hm, clamped_long (Nat.not_lt.mp hn), clamped_long (Nat.not_lt.mp hm)]

namespace Said

variable {s s' : Said} {t t' : Rat} {r r' : Rule}

theorem rule_kind (h : s.rule t = some r) : s.kind = some r.kind := by
  cases s <;> cases h <;> rfl

theorem shown_kind (s : Said) : s.shown.kind = s.kind := by
  cases s with
  | interval seconds =>
    simp only [shown]
    split <;> rfl
  | _ => rfl

/-- The plans of two sound phrases look the same iff as much is shown of the phrases. -/
theorem same_times (sound : s.Sound) (sound' : s'.Sound) (h : s.rule t = some r)
    (h' : s'.rule t' = some r') : SameTimes r r' s.note s'.note ↔ s.shown = s'.shown := by
  by_cases hkind : s.kind = s'.kind
  · cases s with
    | silent => cases h
    | illegible => cases h
    | delay seconds =>
      cases s' <;> cases hkind
      cases h
      cases h'
      refine ⟨fun _ => rfl, fun _ => ⟨rfl, ?_, ?_, ?_, rfl⟩⟩
      all_goals simp [Proactive.inSeconds]
    | interval seconds =>
      cases s' with
      | interval seconds' =>
        cases h
        cases h'
        rw [← interval_same]
        constructor
        · rintro ⟨-, -, -, hdistance, hnote⟩
          exact Prod.ext (hdistance rfl) hnote
        · intro hsame
          refine ⟨rfl, ?_, ?_, fun _ => congrArg Prod.fst hsame, congrArg Prod.snd hsame⟩
          all_goals simp [every]
      | _ => cases hkind
    | weekly days hour minute =>
      cases s' with
      | weekly days' hour' minute' =>
        cases h
        cases h'
        obtain ⟨hhour, hminute⟩ := sound
        obtain ⟨hhour', hminute'⟩ := sound'
        constructor
        · rintro ⟨-, hclock, hdays, -, -⟩
          obtain ⟨rfl, rfl⟩ := clock_same (by omega) (by omega) (by omega) (by omega)
            (hclock (.inr rfl))
          obtain rfl := hdays rfl
          rfl
        · intro hsame
          cases hsame
          exact ⟨rfl, fun _ => rfl, fun _ => rfl, fun _ => rfl, rfl⟩
      | _ => cases hkind
    | daily hour minute assumed =>
      cases s' with
      | daily hour' minute' assumed' =>
        cases h
        cases h'
        obtain ⟨hhour, hminute⟩ := sound
        obtain ⟨hhour', hminute'⟩ := sound'
        constructor
        · rintro ⟨-, hclock, -, -, hnote⟩
          obtain ⟨rfl, rfl⟩ := clock_same (by omega) (by omega) (by omega) (by omega)
            (hclock (.inl rfl))
          cases assumed <;> cases assumed' <;> simp [note, assumedDaily] at hnote <;> rfl
        · intro hsame
          cases hsame
          exact ⟨rfl, fun _ => rfl, fun _ => rfl, fun _ => rfl, rfl⟩
      | _ => cases hkind
  · constructor
    · intro hsame
      exact absurd ((rule_kind h).trans (hsame.kind ▸ (rule_kind h').symm)) hkind
    · intro hsame
      exact absurd ((shown_kind s).symm.trans (hsame ▸ shown_kind s')) hkind

/-- Phrases of which as much is shown make the same plan iff no delays of them differ. -/
theorem rule_same (hs : s.Formed) (hs' : s'.Formed) (h : s.rule t = some r)
    (h' : s'.rule t = some r') (hshown : s.shown = s'.shown) :
    r = r' ↔ ∀ n n', s = .delay n → s' = .delay n' → n = n' := by
  have hkind := (shown_kind s).symm.trans (hshown ▸ shown_kind s')
  cases s with
  | silent => cases h
  | illegible => cases h
  | delay seconds =>
    cases s' with
    | delay seconds' =>
      cases h
      cases h'
      constructor
      · rintro hsame n n' hn hn'
        cases hn
        cases hn'
        have hat := congrArg Rule.atEpoch hsame
        have hpos : (1 : Rat) ≤ seconds := by exact_mod_cast hs
        have hpos' : (1 : Rat) ≤ seconds' := by exact_mod_cast hs'
        simp only [Proactive.inSeconds, max_eq_right hpos, max_eq_right hpos'] at hat
        have hsum : (seconds : Rat) = seconds' := by linarith
        exact_mod_cast hsum
      · intro hdelay
        rw [hdelay _ _ rfl rfl]
    | _ => cases hkind
  | interval seconds =>
    cases s' with
    | interval seconds' =>
      cases h
      cases h'
      have hsame := (interval_same ..).mpr hshown
      simp [hsame]
    | _ => cases hkind
  | weekly days hour minute =>
    cases s' with
    | weekly days' hour' minute' =>
      cases hshown
      cases h
      cases h'
      simp
    | _ => cases hkind
  | daily hour minute assumed =>
    cases s' with
    | daily hour' minute' assumed' =>
      cases hshown
      cases h
      cases h'
      simp
    | _ => cases hkind

end Said

end Solvio.Capabilities.Described
