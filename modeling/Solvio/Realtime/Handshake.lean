import Solvio.Realtime.SatelliteAuth

namespace Solvio.Realtime
open Solvio.Lib

/-! ### Fields without a separator -/

theorem id_code_low {n : Nat} (h : isIdCode n = true) : n < 128 ∧ n ≠ 10 := by
  simp only [isIdCode, Bool.or_eq_true, Bool.and_eq_true, decide_eq_true_eq, beq_iff_eq] at h
  omega

theorem hex_code_low {n : Nat} (h : isHexCode n = true) : n < 128 ∧ n ≠ 10 := by
  simp only [isHexCode, Bool.or_eq_true, Bool.and_eq_true, decide_eq_true_eq] at h
  omega

/-- A field of a shape: plain characters, and a line break behind them at most. -/
structure Field (s body tail : Text) : Prop where
  parts : s = body ++ tail
  plain : ∀ n ∈ body, n < 128 ∧ n ≠ 10
  tail : tail = [] ∨ tail = [10]
  nonempty : body ≠ []

theorem without_break (s : Text) : ∃ tail, s = withoutBreak s ++ tail ∧ (tail = [] ∨ tail = [10]) := by
  unfold withoutBreak
  split
  · rename_i h
    exact ⟨[10], (List.dropLast_append_getLast? 10 h).symm, .inr rfl⟩
  · exact ⟨[], (List.append_nil s).symm, .inl rfl⟩

theorem field_of_shaped {code : Nat → Bool} (hcode : ∀ n, code n = true → n < 128 ∧ n ≠ 10)
    {low high : Nat} (hlow : 0 < low) {s : Text} (h : shaped code low high s = true) :
    ∃ body tail, Field s body tail := by
  simp only [shaped, Bool.and_eq_true, List.all_eq_true, decide_eq_true_eq] at h
  obtain ⟨⟨hall, hlen⟩, -⟩ := h
  obtain ⟨tail, hparts, htail⟩ := without_break s
  refine ⟨withoutBreak s, tail, hparts, fun n hn => hcode n (hall n hn), htail, fun he => ?_⟩
  rw [he] at hlen
  exact absurd hlen (Nat.not_le_of_gt hlow)

theorem field_of_id {s : Text} (h : isId s = true) : ∃ body tail, Field s body tail :=
  field_of_shaped (fun _ => id_code_low) (by decide) h

theorem field_of_hex {s : Text} (h : isHex s = true) : ∃ body tail, Field s body tail :=
  field_of_shaped (fun _ => hex_code_low) (by decide) h

theorem Field.low {s body tail : Text} (h : Field s body tail) : ∀ n ∈ s, n < 128 := by
  intro n hn
  rw [h.parts, List.mem_append] at hn
  rcases hn with hn | hn
  · exact (h.plain n hn).1
  · rcases h.tail with rfl | rfl
    · cases hn
    · rw [List.mem_singleton.mp hn]
      decide

theorem Field.head {s body tail : Text} (h : Field s body tail) (rest : Text) :
    (s ++ rest).head? ≠ some 10 := by
  obtain ⟨n, ns, hbody⟩ := List.exists_cons_of_ne_nil h.nonempty
  have hn := h.plain n (hbody ▸ List.mem_cons_self ..)
  rw [h.parts, hbody]
  intro he
  exact hn.2 (Option.some.inj he)

/-- Up to the first separator. -/
theorem break_cancel {b b' r r' : Text} (hb : ∀ n ∈ b, n ≠ 10) (hb' : ∀ n ∈ b', n ≠ 10)
    (h : b ++ 10 :: r = b' ++ 10 :: r') : b = b' ∧ r = r' := by
  induction b generalizing b' with
  | nil =>
    cases b' with
    | nil => exact ⟨rfl, (List.cons.inj h).2⟩
    | cons n ns => exact absurd (List.cons.inj h).1.symm (hb' n (List.mem_cons_self ..))
  | cons n ns ih =>
    cases b' with
    | nil => exact absurd (List.cons.inj h).1 (hb n (List.mem_cons_self ..))
    | cons n' ns' =>
      obtain ⟨rfl, hrest⟩ := List.cons.inj h
      obtain ⟨rfl, hr⟩ := ih (fun m hm => hb m (List.mem_cons_of_mem _ hm))
        (fun m hm => hb' m (List.mem_cons_of_mem _ hm)) hrest
      exact ⟨rfl, hr⟩

/-- A field is read back, although it may end with a separator itself. -/
theorem field_cancel {s s' body body' tail tail' r r' : Text} (hs : Field s body tail)
    (hs' : Field s' body' tail') (hr : r.head? ≠ some 10) (hr' : r'.head? ≠ some 10)
    (h : s ++ 10 :: r = s' ++ 10 :: r') : s = s' ∧ r = r' := by
  have hb : ∀ n ∈ body, n ≠ 10 := fun n hn => (hs.plain n hn).2
  have hb' : ∀ n ∈ body', n ≠ 10 := fun n hn => (hs'.plain n hn).2
  rw [hs.parts, hs'.parts] at h ⊢
  rcases hs.tail with rfl | rfl <;> rcases hs'.tail with rfl | rfl
  · rw [List.append_nil, List.append_nil] at h
    obtain ⟨rfl, hrest⟩ := break_cancel hb hb' h
    exact ⟨rfl, hrest⟩
  · rw [List.append_nil, List.append_assoc] at h
    obtain ⟨-, hrest⟩ := break_cancel hb hb' h
    rw [hrest] at hr
    exact absurd rfl hr
  · rw [List.append_nil, List.append_assoc] at h
    obtain ⟨-, hrest⟩ := break_cancel hb hb' h
    rw [← hrest] at hr'
    exact absurd rfl hr'
  · rw [List.append_assoc, List.append_assoc] at h
    obtain ⟨rfl, hrest⟩ := break_cancel hb hb' h
    exact ⟨rfl, (List.cons.inj hrest).2⟩

/-! ### The canonical material -/

theorem version_text_low {v : Json} {s : Text} (h : versionText v = some s) :
    ∀ n ∈ s, n < 128 ∧ n ≠ 10 := by
  cases v with
  | int n =>
    obtain rfl := Option.some.inj h
    intro k hk
    obtain ⟨c, hc, rfl⟩ := List.mem_map.mp hk
    rcases Json.render_int_chars n c hc with rfl | hdigit
    · decide
    · simp only [Json.isDigit, Bool.and_eq_true, decide_eq_true_eq] at hdigit
      omega
  | bool b =>
    obtain rfl := Option.some.inj h
    cases b <;> decide
  | _ => cases h

theorem bool_text_head (b : Bool) : (Text.ofString (if b then "True" else "False")).head? ≠ some 45 ∧
    ∀ n, (Text.ofString (if b then "True" else "False")).head? = some n → 57 < n := by
  cases b <;> simp [Text.ofString]

theorem version_text_injective {v v' : Json} {s : Text} (h : versionText v = some s)
    (h' : versionText v' = some s) : v = v' := by
  have hmixed : ∀ (n : Int) (b : Bool), (Json.renderInt n).map Char.toNat ≠
      Text.ofString (if b then "True" else "False") := by
    intro n b heq
    obtain ⟨hdash, hbig⟩ := bool_text_head b
    obtain ⟨c, cs, hint, hc⟩ := Json.render_int_head n
    rw [← heq, hint] at hdash hbig
    rcases hc with rfl | hdigit
    · exact hdash rfl
    · have hlow := hbig c.toNat rfl
      simp only [Json.isDigit, Bool.and_eq_true, decide_eq_true_eq] at hdigit
      omega
  cases v with
  | int n =>
    obtain rfl := Option.some.inj h
    cases v' with
    | int m =>
      have heq := Option.some.inj h'
      have hinj : Function.Injective Char.toNat := fun a b h => Char.toNat_inj.mp h
      rw [Json.render_int_injective (List.map_injective_iff.mpr hinj heq)]
    | bool b => exact absurd (Option.some.inj h').symm (hmixed n b)
    | _ => cases h'
  | bool b =>
    obtain rfl := Option.some.inj h
    cases v' with
    | int m => exact absurd (Option.some.inj h') (hmixed m b)
    | bool b' =>
      have heq := Option.some.inj h'
      cases b <;> cases b' <;> first | rfl | cases heq
    | _ => cases h'
  | _ => cases h

theorem material_iff {v : Json} {sn id cn : Text} {m : Bytes} :
    canonicalMaterial v sn id cn = .ok m ↔ ∃ version, versionText v = some version ∧
      isId id = true ∧ isHex sn = true ∧ isHex cn = true ∧ m = (canonicalPrefix ++ 10 :: (version ++
        10 :: (sn ++ 10 :: (id ++ 10 :: cn)))).map UInt8.ofNat := by
  unfold canonicalMaterial
  cases hv : versionText v with
  | none => simp
  | some version =>
    cases hid : isId id <;> cases hsn : isHex sn <;> cases hcn : isHex cn <;> simp [eq_comm]

theorem low_bytes_injective {xs ys : Text} (hx : ∀ n ∈ xs, n < 128) (hy : ∀ n ∈ ys, n < 128)
    (h : xs.map UInt8.ofNat = ys.map UInt8.ofNat) : xs = ys := by
  have hback : ∀ zs : Text, (∀ n ∈ zs, n < 128) → (zs.map UInt8.ofNat).map UInt8.toNat = zs := by
    intro zs hz
    rw [List.map_map]
    refine (List.map_congr_left fun n hn => ?_).trans (List.map_id zs)
    exact UInt8.toNat_ofNat_of_lt' (lt_trans (hz n hn) (by decide))
  rw [← hback xs hx, h, hback ys hy]

theorem canonical_prefix_low : ∀ n ∈ canonicalPrefix, n < 128 := by
  decide

/-- The material determines its fields. -/
theorem canonical_injective {v v' : Json} {sn sn' id id' cn cn' : Text} {m : Bytes}
    (h : canonicalMaterial v sn id cn = .ok m) (h' : canonicalMaterial v' sn' id' cn' = .ok m) :
    v = v' ∧ sn = sn' ∧ id = id' ∧ cn = cn' := by
  obtain ⟨version, hversion, hid, hsn, hcn, rfl⟩ := Iff.mp material_iff h
  obtain ⟨version', hversion', hid', hsn', hcn', hm⟩ := Iff.mp material_iff h'
  obtain ⟨_, _, fid⟩ := field_of_id hid
  obtain ⟨_, _, fid'⟩ := field_of_id hid'
  obtain ⟨_, _, fsn⟩ := field_of_hex hsn
  obtain ⟨_, _, fsn'⟩ := field_of_hex hsn'
  obtain ⟨_, _, fcn⟩ := field_of_hex hcn
  obtain ⟨_, _, fcn'⟩ := field_of_hex hcn'
  have hlow : ∀ {version sn id cn : Text}, (∀ n ∈ version, n < 128 ∧ n ≠ 10) →
      (∀ n ∈ sn, n < 128) → (∀ n ∈ id, n < 128) → (∀ n ∈ cn, n < 128) →
      ∀ n ∈ canonicalPrefix ++ 10 :: (version ++ 10 :: (sn ++ 10 :: (id ++ 10 :: cn))),
        n < 128 := by
    intro version sn id cn h1 h2 h3 h4 n hn
    simp only [List.mem_append, List.mem_cons] at hn
    rcases hn with hn | rfl | hn | rfl | hn | rfl | hn | rfl | hn
    · exact canonical_prefix_low n hn
    · decide
    · exact (h1 n hn).1
    · decide
    · exact h2 n hn
    · decide
    · exact h3 n hn
    · decide
    · exact h4 n hn
  have htext := low_bytes_injective
    (hlow (version_text_low hversion) fsn.low fid.low fcn.low)
    (hlow (version_text_low hversion') fsn'.low fid'.low fcn'.low) hm
  obtain ⟨rfl, hfields⟩ := break_cancel (fun n hn => (version_text_low hversion n hn).2)
    (fun n hn => (version_text_low hversion' n hn).2)
    (List.cons.inj (List.append_cancel_left htext)).2
  obtain ⟨rfl, hrest⟩ := field_cancel fsn fsn' (fid.head _) (fid'.head _) hfields
  have hend : cn.head? ≠ some 10 := by simpa using fcn.head []
  have hend' : cn'.head? ≠ some 10 := by simpa using fcn'.head []
  obtain ⟨rfl, rfl⟩ := field_cancel fid fid' hend hend' hrest
  exact ⟨version_text_injective hversion hversion', rfl, rfl, rfl⟩

/-! ### The digests -/

theorem hex_digit_code {n : Nat} (h : n < 16) : isHexCode (hexDigit n).toNat = true := by
  revert n
  decide

theorem hex_text_codes (b : Bytes) : ∀ n ∈ Text.ofString (toHex b), isHexCode n = true := by
  intro n hn
  rw [Text.ofString, toHex, String.toList_ofList] at hn
  obtain ⟨c, hc, rfl⟩ := List.mem_map.mp hn
  obtain ⟨x, -, hx⟩ := List.mem_flatMap.mp hc
  have hlt := x.toNat_lt
  simp only [List.mem_cons, List.not_mem_nil, or_false] at hx
  rcases hx with rfl | rfl
  · exact hex_digit_code (by omega)
  · exact hex_digit_code (by omega)

theorem hex_text_length (b : Bytes) : (Text.ofString (toHex b)).length = 2 * b.length := by
  rw [Text.ofString, toHex, String.toList_ofList, List.length_map]
  induction b with
  | nil => rfl
  | cons x b ih =>
    rw [List.flatMap_cons, List.length_append, ih]
    simp only [List.length_cons, List.length_nil]
    omega

/-- Thirty-two bytes are spelled in the shape of a nonce. -/
theorem hex_text_shaped {b : Bytes} (hb : b.length = 32) : isHex (Text.ofString (toHex b)) = true := by
  have hcodes := hex_text_codes b
  have hwhole : withoutBreak (Text.ofString (toHex b)) = Text.ofString (toHex b) := by
    refine if_neg fun hlast => ?_
    exact (hex_code_low (hcodes 10 (List.mem_of_getLast? hlast))).2 rfl
  have hlen := hex_text_length b
  rw [hb] at hlen
  rw [isHex, shaped, hwhole, hlen, List.all_eq_true.mpr hcodes]
  rfl

theorem Challenge.shaped (c : Challenge) : isHex c.text = true := hex_text_shaped c.size

theorem hmac_shaped (secret material : Bytes) :
    isHex (Text.ofString (toHex (hmacSha256 secret material))) = true :=
  hex_text_shaped (sha256_length _)

/-! ### What is verified -/

variable {V : Values} {c : SatelliteCredentials} {id sn cn auth : Text} {v : Json}

/-- The answer that has the key of an id. -/
structure Answers (V : Values) (c : SatelliteCredentials) (id sn cn : Text) (v : Json)
    (auth : Text) : Prop where
  version : equalsOne V v = true
  digest : ∃ secret material, c.get? id = some secret ∧
    canonicalMaterial v sn id cn = .ok material ∧
    auth = Text.ofString (toHex (hmacSha256 secret material))

/-- An unknown id in a good shape, whose other fields have no material. -/
structure Decoy (V : Values) (c : SatelliteCredentials) (id sn cn : Text) (v : Json)
    (auth : Text) : Prop where
  version : equalsOne V v = true
  named : isId id = true
  digest : isHex auth = true
  unknown : c.get? id = none
  unfit : ¬ ((versionText v).isSome ∧ isHex sn = true ∧ isHex cn = true)

theorem compute_auth_error {secret : Bytes} (hid : isId id = true) :
    (∃ e, computeAuth secret v sn id cn = .error e) ↔
      ¬ ((versionText v).isSome ∧ isHex sn = true ∧ isHex cn = true) := by
  unfold computeAuth canonicalMaterial
  cases versionText v with
  | none => simp [Except.map]
  | some version =>
    cases hsn : isHex sn <;> cases hcn : isHex cn <;> simp [hid, Except.map]

theorem compute_auth_ok {secret : Bytes} {expected : Text} :
    computeAuth secret v sn id cn = .ok expected ↔ ∃ material,
      canonicalMaterial v sn id cn = .ok material ∧
        expected = Text.ofString (toHex (hmacSha256 secret material)) := by
  unfold computeAuth
  cases canonicalMaterial v sn id cn with
  | error e => simp [Except.map]
  | ok material => simp [Except.map, eq_comm]

/-- The three ends of `verify`. -/
theorem verify_cases (V : Values) (c : SatelliteCredentials) (id sn cn : Text) (v : Json)
    (auth : Text) :
    (Answers V c id sn cn v auth ∧ c.verify V id sn cn v auth = .ok (true, "ok")) ∨
    (Decoy V c id sn cn v auth ∧ ∃ e, c.verify V id sn cn v auth = .error e) ∨
    (¬ Answers V c id sn cn v auth ∧ ¬ Decoy V c id sn cn v auth ∧
      ∃ reason, c.verify V id sn cn v auth = .ok (false, reason)) := by
  have hid_of : Answers V c id sn cn v auth → isId id = true ∧ isHex auth = true := by
    rintro ⟨-, secret, material, -, hmaterial, rfl⟩
    obtain ⟨-, -, hid, -⟩ := material_iff.mp hmaterial
    exact ⟨hid, hmac_shaped secret material⟩
  unfold SatelliteCredentials.verify
  cases hv : equalsOne V v with
  | false =>
    refine .inr (.inr ⟨fun h => ?_, fun h => ?_, _, rfl⟩)
    · rw [h.version] at hv
      cases hv
    · rw [h.version] at hv
      cases hv
  | true =>
    cases hid : isId id with
    | false =>
      refine .inr (.inr ⟨fun h => ?_, fun h => ?_, _, rfl⟩)
      · rw [(hid_of h).1] at hid
        cases hid
      · rw [h.named] at hid
        cases hid
    | true =>
      cases hauth : isHex auth with
      | false =>
        refine .inr (.inr ⟨fun h => ?_, fun h => ?_, _, rfl⟩)
        · rw [(hid_of h).2] at hauth
          cases hauth
        · rw [h.digest] at hauth
          cases hauth
      | true =>
        simp only [Bool.not_true, Bool.false_eq_true, if_false]
        cases hget : c.get? id with
        | none =>
          have hno : ¬ Answers V c id sn cn v auth := by
            rintro ⟨-, secret, -, hsecret, -⟩
            rw [hget] at hsecret
            cases hsecret
          cases hdecoy : computeAuth (List.replicate 32 0) v sn id cn with
          | error e =>
            exact .inr (.inl ⟨⟨hv, hid, hauth, hget, (compute_auth_error hid).mp ⟨e, hdecoy⟩⟩, e,
              rfl⟩)
          | ok expected =>
            refine .inr (.inr ⟨hno, fun h => ?_, _, rfl⟩)
            obtain ⟨e, he⟩ : ∃ e, computeAuth (List.replicate 32 0) v sn id cn = .error e :=
              (compute_auth_error hid).mpr h.unfit
            rw [hdecoy] at he
            cases he
        | some secret =>
          have hno : ¬ Decoy V c id sn cn v auth := by
            intro h
            rw [h.unknown] at hget
            cases hget
          dsimp only
          cases hdigest : computeAuth secret v sn id cn with
          | error e =>
            refine .inr (.inr ⟨?_, hno, _, rfl⟩)
            rintro ⟨-, secret', material, hsecret, hmaterial, -⟩
            have hok : computeAuth secret v sn id cn = .ok _ :=
              Iff.mpr compute_auth_ok ⟨material, hmaterial, rfl⟩
            rw [hdigest] at hok
            cases hok
          | ok expected =>
            obtain ⟨material, hmaterial, hexpected⟩ := Iff.mp compute_auth_ok hdigest
            by_cases heq : expected = auth
            · exact .inl ⟨⟨hv, secret, material, hget, hmaterial, heq ▸ hexpected⟩, if_pos heq⟩
            · refine .inr (.inr ⟨?_, hno, _, if_neg heq⟩)
              rintro ⟨-, secret', material', hsecret, hmaterial', rfl⟩
              obtain rfl := Option.some.inj (hget.symm.trans hsecret)
              obtain rfl := Except.ok.inj (hmaterial.symm.trans hmaterial')
              exact heq hexpected

/-! ### The handshake -/

/-- A hello that names an id and answers the challenge with its key. -/
def Keyed (V : Values) (c : SatelliteCredentials) (ch : Challenge) (f : Frame) (id : Text) : Prop :=
  ∃ msg, f = .text (.value msg) ∧ isHello msg = true ∧ fieldText V msg "satellite_id" = id ∧
    Answers V c id ch.text (fieldText V msg "client_nonce") (protocolVersion msg)
      (fieldText V msg "auth")

/-- The id is returned for the keyed answer only, and any other message is
refused and the socket closed. -/
def Judges (V : Values) (c : SatelliteCredentials) (ch : Challenge) (f : Frame) : Prop :=
  (∀ id, authenticate V (some c) ch (.frame f) = .accepted id ↔ Keyed V c ch f id) ∧
  ((¬ ∃ id, Keyed V c ch f id) →
    ∃ code reason, authenticate V (some c) ch (.frame f) = .refused code reason)

/-- The messages that are judged rightly. -/
structure Answerable (V : Values) (c : SatelliteCredentials) (ch : Challenge) (f : Frame) :
    Prop where
  shallow : f ≠ .text .tooDeep
  fit : ∀ msg, f = .text (.value msg) → isHello msg = true →
    equalsOne V (protocolVersion msg) = true → isId (fieldText V msg "satellite_id") = true →
    isHex (fieldText V msg "auth") = true → c.get? (fieldText V msg "satellite_id") = none →
      (versionText (protocolVersion msg)).isSome ∧ isHex (fieldText V msg "client_nonce") = true
  short : ∀ id, Keyed V c ch f id → id.length ≤ 64

theorem Keyed.unique {ch : Challenge} {f : Frame} {id id' : Text} (h : Keyed V c ch f id)
    (h' : Keyed V c ch f id') : id = id' := by
  obtain ⟨msg, hf, -, hid, -⟩ := h
  obtain ⟨msg', hf', -, hid', -⟩ := h'
  obtain rfl : msg = msg' := by
    have := hf.symm.trans hf'
    simpa using this
  exact hid.symm.trans hid'

theorem Keyed.ne_nil {ch : Challenge} {f : Frame} (h : Keyed V c ch f []) : False := by
  obtain ⟨msg, -, -, -, -, secret, material, -, hmaterial, -⟩ := h
  obtain ⟨-, -, hid, -⟩ := material_iff.mp hmaterial
  exact absurd hid (by decide)

theorem not_judges_of_raised {ch : Challenge} {f : Frame} {e : String}
    (hout : authenticate V (some c) ch (.frame f) = .raised e) : ¬ Judges V c ch f := by
  rintro ⟨hiff, hrefuse⟩
  have hno : ¬ ∃ id, Keyed V c ch f id := by
    rintro ⟨id, hid⟩
    have h := (hiff id).mpr hid
    rw [hout] at h
    cases h
  obtain ⟨code, reason, h⟩ := hrefuse hno
  rw [hout] at h
  cases h

/-- What a hello comes to. -/
theorem hello_cases (V : Values) (c : SatelliteCredentials) (ch : Challenge) {msg : Json}
    (hello : isHello msg = true) :
    (∃ id, Keyed V c ch (.text (.value msg)) id ∧
      authenticate V (some c) ch (.frame (.text (.value msg))) = .accepted (id.take 64)) ∨
    (Decoy V c (fieldText V msg "satellite_id") ch.text (fieldText V msg "client_nonce")
        (protocolVersion msg) (fieldText V msg "auth") ∧
      ∃ e, authenticate V (some c) ch (.frame (.text (.value msg))) = .raised e) ∨
    ((¬ ∃ id, Keyed V c ch (.text (.value msg)) id) ∧
      ¬ Decoy V c (fieldText V msg "satellite_id") ch.text (fieldText V msg "client_nonce")
        (protocolVersion msg) (fieldText V msg "auth") ∧
      authenticate V (some c) ch (.frame (.text (.value msg))) = .refused 4401 "unauthorized") := by
  unfold authenticate
  simp only [hello, Bool.not_true, Bool.false_eq_true, if_false]
  rcases verify_cases V c (fieldText V msg "satellite_id") ch.text (fieldText V msg "client_nonce")
    (protocolVersion msg) (fieldText V msg "auth") with
    ⟨hanswers, hok⟩ | ⟨hdecoy, e, herror⟩ | ⟨hno, hfit, reason, hfalse⟩
  · have hkeyed : Keyed V c ch (.text (.value msg)) (fieldText V msg "satellite_id") :=
      ⟨msg, rfl, hello, rfl, hanswers⟩
    have hne : fieldText V msg "satellite_id" ≠ [] := fun he => (he ▸ hkeyed).ne_nil
    exact .inl ⟨_, hkeyed, by simp only [hok, if_neg hne]⟩
  · exact .inr (.inl ⟨hdecoy, e, by simp only [herror]⟩)
  · refine .inr (.inr ⟨?_, hfit, by simp only [hfalse]⟩)
    rintro ⟨id, msg', hmsg, -, rfl, hanswers⟩
    obtain rfl : msg = msg' := by simpa using hmsg
    exact hno hanswers

/-- A message is judged rightly exactly if it is answerable, and the material
that is signed determines its fields. -/
theorem handshake (V : Values) (c : SatelliteCredentials) (ch : Challenge) (f : Frame) :
    (Judges V c ch f ↔ Answerable V c ch f) ∧
    ∀ (v v' : Json) (sn sn' id id' cn cn' : Text) (m : Bytes),
      canonicalMaterial v sn id cn = .ok m → canonicalMaterial v' sn' id' cn' = .ok m →
        v = v' ∧ sn = sn' ∧ id = id' ∧ cn = cn' := by
  refine ⟨?_, fun _ _ _ _ _ _ _ _ _ h h' => canonical_injective h h'⟩
  have hplain : ∀ code reason, authenticate V (some c) ch (.frame f) = .refused code reason →
      (¬ ∃ id, Keyed V c ch f id) → Judges V c ch f := by
    intro code reason hout hno
    refine ⟨fun id => ⟨fun h => ?_, fun h => absurd ⟨id, h⟩ hno⟩, fun _ => ⟨code, reason, hout⟩⟩
    rw [hout] at h
    cases h
  have hraised : ∀ e, authenticate V (some c) ch (.frame f) = .raised e → ¬ Judges V c ch f :=
    fun _ => not_judges_of_raised
  have hother : (∀ msg, f ≠ .text (.value msg)) → ¬ ∃ id, Keyed V c ch f id := by
    rintro hne ⟨id, msg, hf, -⟩
    exact hne msg hf
  cases f with
  | binary =>
    have hno := hother (by simp)
    exact ⟨fun _ => ⟨by simp, by simp, fun id h => absurd ⟨id, h⟩ hno⟩,
      fun _ => hplain _ _ rfl hno⟩
  | text l =>
    cases l with
    | malformed =>
      have hno := hother (by simp)
      exact ⟨fun _ => ⟨by simp, by simp, fun id h => absurd ⟨id, h⟩ hno⟩,
        fun _ => hplain _ _ rfl hno⟩
    | tooDeep => exact ⟨fun h => absurd h (hraised _ rfl), fun h => absurd rfl h.shallow⟩
    | value msg =>
      cases hello : isHello msg with
      | false =>
        have hno : ¬ ∃ id, Keyed V c ch (.text (.value msg)) id := by
          rintro ⟨id, msg', hmsg, htrue, -⟩
          obtain rfl : msg = msg' := by simpa using hmsg
          rw [hello] at htrue
          cases htrue
        refine ⟨fun _ => ⟨by simp, ?_, fun id h => absurd ⟨id, h⟩ hno⟩,
          fun _ => hplain 4400 "malformed hello" (by simp [authenticate, hello]) hno⟩
        intro msg' hmsg htrue
        obtain rfl : msg = msg' := by simpa using hmsg
        rw [hello] at htrue
        cases htrue
      | true =>
        rcases hello_cases V c ch hello with
          ⟨id, hkeyed, hout⟩ | ⟨hdecoy, e, hout⟩ | ⟨hno, hfit, hout⟩
        · constructor
          · rintro ⟨hiff, -⟩
            refine ⟨by simp, ?_, ?_⟩
            · intro msg' hmsg _ _ _ _ hunknown
              obtain rfl : msg = msg' := by simpa using hmsg
              obtain ⟨_, hmsg, -, rfl, -, secret, -, hsecret, -⟩ := hkeyed
              cases hmsg
              rw [hunknown] at hsecret
              cases hsecret
            · intro id' hid'
              obtain rfl := hkeyed.unique hid'
              have hsame := (hiff id).mpr hkeyed
              rw [hout] at hsame
              have htake := Outcome.accepted.inj hsame
              rw [← htake, List.length_take]
              exact Nat.min_le_left _ _
          · intro h
            have htake : id.take 64 = id := List.take_of_length_le (h.short id hkeyed)
            rw [htake] at hout
            refine ⟨fun id' => ⟨fun h' => ?_, fun h' => ?_⟩, fun hno => absurd ⟨id, hkeyed⟩ hno⟩
            · rw [hout] at h'
              obtain rfl := Outcome.accepted.inj h'
              exact hkeyed
            · obtain rfl := hkeyed.unique h'
              exact hout
        · refine ⟨fun h => absurd h (hraised _ hout), fun h => ?_⟩
          obtain ⟨hv, hn⟩ := h.fit msg rfl hello hdecoy.version hdecoy.named hdecoy.digest hdecoy.unknown
          exact absurd ⟨hv, ch.shaped, hn⟩ hdecoy.unfit
        · refine ⟨fun _ => ⟨by simp, ?_, fun id h => absurd ⟨id, h⟩ hno⟩,
            fun _ => hplain _ _ hout hno⟩
          intro msg' hmsg _ hv hid hauth hunknown
          obtain rfl : msg = msg' := by simpa using hmsg
          by_contra hunfit
          exact hfit ⟨hv, hid, hauth, hunknown, fun h => hunfit ⟨h.1, h.2.2⟩⟩

/-! ### An unknown satellite -/

def sampleCredentials : SatelliteCredentials where
  secrets := [(Text.ofString "ward", List.replicate 32 7)]
  distinct := by decide
  configured := by decide
  ids := by decide
  long := by decide

def sampleChallenge : Challenge := ⟨List.replicate 32 1, by decide⟩

/-- A hello of an unknown id without a nonce. -/
def sampleHello : Json := .obj [
  Json.field "type" (Json.string "hello"),
  Json.field "protocol_version" (.int 1),
  Json.field "satellite_id" (Json.string "attic"),
  Json.field "auth" (Json.string "0000000000000000")]

/-- The comparison for an unknown id raises on a nonce that has no shape. -/
theorem unknown_id_raises : ¬ ∀ (V : Values) (c : SatelliteCredentials) (ch : Challenge)
    (f : Frame), Judges V c ch f := by
  intro hall
  have hout : authenticate ⟨fun _ => false, fun _ => []⟩ (some sampleCredentials) sampleChallenge
      (.frame (.text (.value sampleHello))) = .raised "nonce has an unacceptable shape" := by
    decide
  exact not_judges_of_raised hout (hall _ _ _ _)

end Solvio.Realtime
