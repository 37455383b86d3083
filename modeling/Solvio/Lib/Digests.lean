import Solvio.Lib.Codec
import Solvio.Lib.Json

namespace Solvio.Lib
namespace Sha256

/-! The same rounds, each of whose words is computed before the next one needs it. A
proof that has to know a digest runs these. -/

/-- A number is computed before it is passed on. -/
def forced {α : Type} (n : Nat) (k : Nat → α) : α :=
  match n with
  | 0 => k 0
  | n + 1 => k (Nat.succ n)

@[simp] theorem forced_eq {α : Type} (n : Nat) (k : Nat → α) : forced n k = k n := by
  cases n <;> rfl

/-- `rotr` by `n`, where `m` is `32 - n`. -/
def turned (x n m : Nat) : Nat :=
  Nat.lor (Nat.shiftRight x n) (Nat.mod (Nat.shiftLeft x m) 4294967296)

/-- The sixteen words that settle the rest of the schedule, oldest first. -/
structure Window where
  (w0 w1 w2 w3 w4 w5 w6 w7 w8 w9 w10 w11 w12 w13 w14 w15 : Nat)

/-- The word that `extend` adds. -/
def Window.next (w : Window) : Nat :=
  Nat.mod (Nat.add (Nat.add (Nat.add w.w0
    (Nat.xor (Nat.xor (turned w.w1 7 25) (turned w.w1 18 14)) (Nat.shiftRight w.w1 3))) w.w9)
    (Nat.xor (Nat.xor (turned w.w14 17 15) (turned w.w14 19 13)) (Nat.shiftRight w.w14 10)))
    4294967296

def Window.shift (w : Window) (x : Nat) : Window :=
  ⟨w.w1, w.w2, w.w3, w.w4, w.w5, w.w6, w.w7, w.w8, w.w9, w.w10, w.w11, w.w12, w.w13, w.w14, w.w15, x⟩

/-- Newest first. -/
def Window.list (w : Window) : List Nat :=
  [w.w15, w.w14, w.w13, w.w12, w.w11, w.w10, w.w9, w.w8, w.w7, w.w6, w.w5, w.w4, w.w3, w.w2, w.w1, w.w0]

/-- `round`, with the schedule at hand. -/
def rounds : List Nat → Chain → Window → Chain
  | [], s, _ => s
  | k :: ks, ⟨a, b, c, d, e, f, g, h⟩, w =>
    forced (Nat.mod (Nat.add (Nat.add (Nat.add (Nat.add h
        (Nat.xor (Nat.xor (turned e 6 26) (turned e 11 21)) (turned e 25 7)))
        (Nat.xor (Nat.land e f) (Nat.land (Nat.sub 4294967295 e) g))) k) w.w0) 4294967296) fun t1 =>
    forced (Nat.mod (Nat.add t1 (Nat.add
        (Nat.xor (Nat.xor (turned a 2 30) (turned a 13 19)) (turned a 22 10))
        (Nat.xor (Nat.xor (Nat.land a b) (Nat.land a c)) (Nat.land b c)))) 4294967296) fun new =>
    forced (Nat.mod (Nat.add d t1) 4294967296) fun mid =>
    forced w.next fun x => rounds ks ⟨new, a, b, c, mid, e, f, g⟩ (w.shift x)

theorem extend_window (n : Nat) (w : Window) (old : List Nat) :
    extend (n + 1) (w.list ++ old) = extend n ((w.shift w.next).list ++ (w.w0 :: old)) := rfl

theorem extend_append (n : Nat) (w : List Nat) : ∃ pre, extend n w = pre ++ w := by
  induction n generalizing w with
  | zero => exact ⟨[], rfl⟩
  | succ n ih =>
    obtain ⟨pre, hpre⟩ := ih (_ :: w)
    exact ⟨pre ++ [_], by rw [extend, hpre, List.append_assoc]; rfl⟩

theorem extend_add (m n : Nat) (w : List Nat) : extend (m + n) w = extend n (extend m w) := by
  induction m generalizing w with
  | zero => rw [Nat.zero_add]; rfl
  | succ m ih =>
    rw [Nat.succ_add]
    exact ih _

theorem zip_append_left {α β : Type} {xs : List α} {ys zs : List β} (h : xs.length ≤ ys.length) :
    xs.zip (ys ++ zs) = xs.zip ys := by
  induction xs generalizing ys with
  | nil => rfl
  | cons x xs ih =>
    cases ys with
    | nil => simp at h
    | cons y ys =>
      simp only [List.length_cons, Nat.add_le_add_iff_right] at h
      simp [ih h]

/-- The schedule behind the words that are used up. -/
theorem rounds_eq (ks : List Nat) (s : Chain) (w : Window) (old : List Nat) :
    rounds ks s w =
      (ks.zip ((extend ks.length (w.list ++ old)).reverse.drop old.length)).foldl round s := by
  induction ks generalizing s w old with
  | nil => rfl
  | cons k ks ih =>
    obtain ⟨pre, hpre⟩ := extend_append ks.length ((w.shift w.next).list ++ (w.w0 :: old))
    have hdrop : (extend (ks.length + 1) (w.list ++ old)).reverse.drop old.length =
        w.w0 :: (extend ks.length ((w.shift w.next).list ++ (w.w0 :: old))).reverse.drop
          (w.w0 :: old).length := by
      rw [extend_window, hpre]
      simp only [List.reverse_append, List.reverse_cons, List.append_assoc, List.length_cons]
      rw [List.drop_left' (List.length_reverse), List.singleton_append,
        show old.reverse ++ w.w0 :: ((w.shift w.next).list.reverse ++ pre.reverse) =
          (old.reverse ++ [w.w0]) ++ ((w.shift w.next).list.reverse ++ pre.reverse) by simp,
        List.drop_left' (by simp)]
    rw [List.length_cons, hdrop, List.zip_cons_cons, List.foldl_cons, ← ih]
    simp only [rounds, forced_eq]
    rfl

/-- `compress`, on sixteen words. -/
theorem compress_window (s : Chain) (w : Window) :
    compress s w.list.reverse =
      let t := rounds constants s w
      ⟨(s.a + t.a) % word, (s.b + t.b) % word, (s.c + t.c) % word, (s.d + t.d) % word,
        (s.e + t.e) % word, (s.f + t.f) % word, (s.g + t.g) % word, (s.h + t.h) % word⟩ := by
  obtain ⟨pre, hpre⟩ := extend_append 48 w.list
  obtain ⟨more, hmore⟩ := extend_append 16 (extend 48 w.list)
  have hlen : constants.length = 48 + 16 := rfl
  have hzip : constants.zip (extend 48 w.list).reverse =
      constants.zip ((extend constants.length (w.list ++ [])).reverse.drop 0) := by
    rw [hlen, extend_add, List.append_nil, hmore, List.reverse_append, List.drop_zero,
      zip_append_left]
    have h48 : (extend 48 w.list).length = 64 := rfl
    rw [List.length_reverse, h48, hlen]
  have hrounds := rounds_eq constants s w []
  rw [List.length_nil, ← hzip] at hrounds
  rw [compress, List.reverse_reverse, hrounds]

/-- `blocks`, with every word of the chain computed. -/
def blocksRun : Nat → Chain → List Nat → Chain
  | n + 1, ⟨a, b, c, d, e, f, g, h⟩,
      w0 :: w1 :: w2 :: w3 :: w4 :: w5 :: w6 :: w7 :: w8 :: w9 :: w10 :: w11 :: w12 :: w13 :: w14 ::
        w15 :: rest =>
    forced w0 fun w0 => forced w1 fun w1 => forced w2 fun w2 => forced w3 fun w3 =>
    forced w4 fun w4 => forced w5 fun w5 => forced w6 fun w6 => forced w7 fun w7 =>
    forced w8 fun w8 => forced w9 fun w9 => forced w10 fun w10 => forced w11 fun w11 =>
    forced w12 fun w12 => forced w13 fun w13 => forced w14 fun w14 => forced w15 fun w15 =>
    let t := rounds constants ⟨a, b, c, d, e, f, g, h⟩
      ⟨w0, w1, w2, w3, w4, w5, w6, w7, w8, w9, w10, w11, w12, w13, w14, w15⟩
    forced ((a + t.a) % word) fun a => forced ((b + t.b) % word) fun b =>
    forced ((c + t.c) % word) fun c => forced ((d + t.d) % word) fun d =>
    forced ((e + t.e) % word) fun e => forced ((f + t.f) % word) fun f =>
    forced ((g + t.g) % word) fun g => forced ((h + t.h) % word) fun h =>
    blocksRun n ⟨a, b, c, d, e, f, g, h⟩ rest
  | n, s, w => blocks n s w

theorem blocks_run (n : Nat) (s : Chain) (w : List Nat) : blocksRun n s w = blocks n s w := by
  fun_induction blocksRun n s w with
  | case1 n a b c d e f g h w0 w1 w2 w3 w4 w5 w6 w7 w8 w9 w10 w11 w12 w13 w14 w15 rest ih =>
    simp only [forced_eq] at ih ⊢
    have hstep := compress_window ⟨a, b, c, d, e, f, g, h⟩
      ⟨w0, w1, w2, w3, w4, w5, w6, w7, w8, w9, w10, w11, w12, w13, w14, w15⟩
    exact (ih ..).trans (congrArg (blocks n · rest) hstep.symm)
  | case2 => rfl

theorem words_length (b : Bytes) : (words b).length ≤ b.length := by
  fun_induction words b with
  | case1 a b c d rest ih =>
    simp only [List.length_cons]
    omega
  | case2 => exact Nat.zero_le _

/-- Words that are used up need no more fuel. -/
theorem blocks_fuel {m n : Nat} {s : Chain} {w : List Nat} (hm : w.length ≤ m) (hn : w.length ≤ n) :
    blocks m s w = blocks n s w := by
  induction m generalizing n s w with
  | zero =>
    obtain rfl := List.length_eq_zero_iff.mp (Nat.le_zero.mp hm)
    cases n <;> rfl
  | succ m ih =>
    cases w with
    | nil => cases n <;> rfl
    | cons x w =>
      cases n with
      | zero => simp at hn
      | succ n =>
        simp only [List.length_cons] at hm hn
        refine ih ?_ ?_
        all_goals
          simp only [List.drop_succ_cons, List.length_drop]
          omega

end Sha256

/-- A digest is what the rounds compute. -/
theorem sha256_run (msg : Bytes) : sha256 msg =
    Sha256.digest (Sha256.blocksRun (Sha256.pad msg).length Sha256.initial
      (Sha256.words (Sha256.pad msg))) := by
  rw [Sha256.blocks_run, sha256,
    Sha256.blocks_fuel (Nat.le_refl _) (Sha256.words_length (Sha256.pad msg))]

/-- The code of a hexadecimal digit. -/
def hexCode (n : Nat) : Nat := if n < 10 then 48 + n else 87 + n

def hexRun : Bytes → List Char
  | [] => []
  | x :: xs =>
    Sha256.forced x.toNat fun n =>
    Sha256.forced (hexCode (n / 16)) fun a => Sha256.forced (hexCode (n % 16)) fun b =>
    Char.ofNat a :: Char.ofNat b :: hexRun xs

theorem hex_digit_code (n : Nat) : hexDigit n = Char.ofNat (hexCode n) := by
  unfold hexDigit hexCode
  split <;> rfl

theorem to_hex_run (b : Bytes) : toHex b = String.ofList (hexRun b) := by
  rw [toHex]
  congr 1
  induction b with
  | nil => rfl
  | cons x xs ih =>
    rw [List.flatMap_cons, ih]
    simp only [hexRun, Sha256.forced_eq, hex_digit_code]
    exact rfl

/-- A text in ASCII, as bytes. -/
theorem encode_ascii {cs : List Char} (h : cs.all (fun c => c.toNat < 128) = true) :
    encodeUtf8 (String.ofList cs) = cs.map (fun c => UInt8.ofNat c.toNat) := by
  rw [encode_utf8_list, String.toList_ofList, List.map_eq_flatMap]
  apply List.flatMap_congr
  intro c hc
  have hlow := of_decide_eq_true (List.all_eq_true.mp h c hc)
  rw [String.utf8EncodeChar, if_pos (by simp only [Char.toNat] at hlow; omega)]
  rfl

/-- `Text.ofString`, by way of the bytes. -/
def Text.quick (s : String) : Text :=
  if (encodeUtf8 s).all (fun b => b < 128) then (encodeUtf8 s).map UInt8.toNat else Text.ofString s

/-- A character that is spelled with low bytes is ASCII. -/
theorem low_encode_char {c : Char} (h : ∀ b ∈ String.utf8EncodeChar c, b < 128) :
    String.utf8EncodeChar c = [UInt8.ofNat c.toNat] ∧ c.toNat < 128 := by
  by_cases hlow : c.val.toNat ≤ 127
  · exact ⟨by rw [String.utf8EncodeChar, if_pos hlow]; rfl, Nat.lt_succ_of_le hlow⟩
  · exfalso
    have hbig : ∀ n, 128 ≤ n → n < 256 → ¬ UInt8.ofNat n < 128 := by
      intro n hn hlt hb
      rw [UInt8.lt_iff_toNat_lt, UInt8.toNat_ofNat_of_lt' hlt] at hb
      exact absurd hb (Nat.not_lt.mpr hn)
    rw [String.utf8EncodeChar, if_neg hlow] at h
    repeat' split at h
    all_goals exact hbig _ (by omega) (by omega) (h _ List.mem_cons_self)

theorem Text.of_string_quick (s : String) : Text.ofString s = Text.quick s := by
  unfold Text.quick
  split
  · rename_i h
    rw [encode_utf8_list] at h ⊢
    have hlow : ∀ c ∈ s.toList, ∀ b ∈ String.utf8EncodeChar c, b < 128 := fun c hc b hb =>
      of_decide_eq_true (List.all_eq_true.mp h b (List.mem_flatMap.mpr ⟨c, hc, hb⟩))
    rw [Text.ofString, List.map_flatMap, List.map_eq_flatMap]
    apply List.flatMap_congr
    intro c hc
    obtain ⟨henc, hlt⟩ := low_encode_char (hlow c hc)
    rw [henc, List.map_singleton, UInt8.toNat_ofNat_of_lt' (hlt.trans (by decide))]
  · rfl

end Solvio.Lib
