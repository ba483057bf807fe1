/-
  CoreHeartbeat.Lib.Percent — percent-encoding of texts (`urllib.parse.quote`, `unquote`).

  `unquote` reads the escapes of each run of ASCII characters as bytes and decodes the run as
  UTF-8, what is malformed in it becoming U+FFFD. An escape is a percent sign with two
  hexadecimal digits after it; any other percent sign stands for itself. `quote` writes the
  UTF-8 bytes of every character that is not safe as escapes; which characters are safe differs
  from encoder to encoder and is a parameter (`SafeSet`), as long as a percent sign is not among
  them.

  UTF-8 decoding with replacement goes by the longest part of a well-formed sequence that is
  there, as the standard recommends and Python does (`malformed`).

  Proved:
  - `decode_utf8`: a text's own bytes are decoded to it.
  - `unquote_quote`: what is encoded once is decoded by one `unquote`, whichever characters were
    left as they are.
  - `unquote_eq_self_iff`: `unquote` leaves exactly the texts without an escape; any other gets
    shorter (`unquote_shorter`), so decoding twice is not decoding once.
-/

import Mathlib.Data.List.Basic

namespace Percent

/-! ## UTF-8 -/

/-- `c` can come after `b` in a sequence of three or four bytes. -/
def follows (b c : UInt8) : Bool :=
  if b = 0xe0 then 0xa0 ≤ c && c ≤ 0xbf
  else if b = 0xed then 0x80 ≤ c && c ≤ 0x9f
  else if b = 0xf0 then 0x90 ≤ c && c ≤ 0xbf
  else if b = 0xf4 then 0x80 ≤ c && c ≤ 0x8f
  else 0xe1 ≤ b && b ≤ 0xf3 && 0x80 ≤ c && c ≤ 0xbf

/-- How many bytes one U+FFFD stands for: as much of a sequence as is there. -/
def malformed : List UInt8 → Nat
  | b :: c :: d :: _ => if follows b c then (if 0xf0 ≤ b && 0x80 ≤ d && d ≤ 0xbf then 3 else 2) else 1
  | [b, c] => if follows b c then 2 else 1
  | _ => 1

def decodeFuel : Nat → List UInt8 → List Char
  | 0, _ => []
  | _ + 1, [] => []
  | n + 1, b :: bs =>
    match (b :: bs).toByteArray.utf8DecodeChar? 0 with
    | some c => c :: decodeFuel n ((b :: bs).drop c.utf8Size)
    | none => Char.ofNat 0xfffd :: decodeFuel n ((b :: bs).drop (malformed (b :: bs)))

/-- `bytes.decode("utf-8", "replace")`. -/
def decode (bs : List UInt8) : List Char := decodeFuel bs.length bs

theorem malformed_pos (bs : List UInt8) : 1 ≤ malformed bs := by
  unfold malformed
  repeat' split
  all_goals omega

/-- Every step reads a byte. -/
theorem decodeFuel_eq {n : Nat} {bs : List UInt8} (h : bs.length ≤ n) : decodeFuel n bs = decode bs := by
  unfold decode
  induction n using Nat.strongRecOn generalizing bs with
  | _ n ih =>
    cases bs with
    | nil => cases n <;> rfl
    | cons b bs =>
      obtain ⟨n, rfl⟩ : ∃ m, n = m + 1 := ⟨n - 1, by simp only [List.length_cons] at h; omega⟩
      have hdrop : ∀ k, 1 ≤ k → ((b :: bs).drop k).length ≤ bs.length := by
        intro k hk
        rw [List.length_drop, List.length_cons]
        omega
      have hstep : ∀ k, 1 ≤ k → decodeFuel n ((b :: bs).drop k) = decodeFuel bs.length ((b :: bs).drop k) := by
        intro k hk
        have hlen := hdrop k hk
        rw [List.length_cons] at h
        rw [ih n (by omega) (by omega)]
        by_cases hbs : bs.length = n
        · rw [hbs, ih n (by omega) (by omega)]
        · exact (ih bs.length (by omega) hlen).symm
      simp only [List.length_cons, decodeFuel]
      split
      · rename_i c _
        rw [hstep _ c.utf8Size_pos]
      · rw [hstep _ (malformed_pos _)]

/-- The encoding of a character is decoded first. -/
theorem decode_char (c : Char) (bs : List UInt8) : decode (String.utf8EncodeChar c ++ bs) = c :: decode bs := by
  have hlen : (String.utf8EncodeChar c).length = c.utf8Size := String.length_utf8EncodeChar c
  have hread : (String.utf8EncodeChar c ++ bs).toByteArray.utf8DecodeChar? 0 = some c := by
    have hchar : [c].utf8Encode = (String.utf8EncodeChar c).toByteArray := by
      rw [List.utf8Encode, List.flatMap_singleton]
    rw [List.toByteArray_append, ← hchar]
    exact List.utf8DecodeChar?_utf8Encode_singleton_append
  obtain ⟨b, rest, hcons⟩ : ∃ b rest, String.utf8EncodeChar c ++ bs = b :: rest := by
    have hpos := c.utf8Size_pos
    cases hbytes : String.utf8EncodeChar c with
    | nil => rw [hbytes] at hlen; simp only [List.length_nil] at hlen; omega
    | cons b rest => exact ⟨b, rest ++ bs, rfl⟩
  have hrest : (b :: rest).drop c.utf8Size = bs := by
    rw [← hcons, ← hlen, List.drop_left]
  rw [hcons] at hread ⊢
  rw [decode, List.length_cons, decodeFuel, hread]
  simp only [hrest]
  rw [decodeFuel_eq]
  have hlength := congrArg List.length hcons
  rw [List.length_append, List.length_cons, hlen] at hlength
  have hpos := c.utf8Size_pos
  omega

/-- No more characters than bytes. -/
theorem length_decode_le (bs : List UInt8) : (decode bs).length ≤ bs.length := by
  have hfuel : ∀ n bs, (decodeFuel n bs).length ≤ n := by
    intro n
    induction n with
    | zero => intro bs; exact Nat.le_refl 0
    | succ n ih =>
      intro bs
      cases bs with
      | nil => exact Nat.zero_le _
      | cons b bs =>
        rw [decodeFuel]
        split
        · have := ih ((b :: bs).drop (Char.utf8Size ‹Char›))
          rw [List.length_cons]
          omega
        · have := ih ((b :: bs).drop (malformed (b :: bs)))
          rw [List.length_cons]
          omega
  exact hfuel bs.length bs

/-! ## Escapes -/

def hexValue (c : Char) : Option Nat :=
  if '0' ≤ c ∧ c ≤ '9' then some (c.toNat - 48)
  else if 'a' ≤ c ∧ c ≤ 'f' then some (c.toNat - 87)
  else if 'A' ≤ c ∧ c ≤ 'F' then some (c.toNat - 55)
  else none

def isHex (c : Char) : Bool := (hexValue c).isSome

def startsHex : List Char → Bool
  | h :: l :: _ => isHex h && isHex l
  | _ => false

/-- A percent sign with two hexadecimal digits after it. -/
def hasEscape : List Char → Bool
  | [] => false
  | c :: t => (c = '%' && startsHex t) || hasEscape t

def byteOf (c : Char) : UInt8 := UInt8.ofNat c.toNat

def unquoteToBytes : List Char → List UInt8
  | [] => []
  | '%' :: h :: l :: t =>
    match hexValue h, hexValue l with
    | some a, some b => UInt8.ofNat (16 * a + b) :: unquoteToBytes t
    | _, _ => byteOf '%' :: unquoteToBytes (h :: l :: t)
  | c :: t => byteOf c :: unquoteToBytes t

/-- The runs of ASCII characters decoded; `run` is the run being read, reversed. -/
def decodeRuns (run : List Char) : List Char → List Char
  | [] => decode (unquoteToBytes run.reverse)
  | c :: t =>
    if c.toNat < 128 then decodeRuns (c :: run) t else decode (unquoteToBytes run.reverse) ++ c :: decodeRuns [] t

def unquote (t : List Char) : List Char := if t.contains '%' then decodeRuns [] t else t

theorem not_hex_of_ascii {c : Char} (h : ¬ c.toNat < 128) : isHex c = false := by
  have hno : ∀ lo hi : Char, hi.toNat < 128 → ¬ (lo ≤ c ∧ c ≤ hi) := by
    intro lo hi hhi hrange
    exact h (Nat.lt_of_le_of_lt hrange.2 hhi)
  unfold isHex hexValue
  rw [if_neg (hno '0' '9' (by decide)), if_neg (hno 'a' 'f' (by decide)), if_neg (hno 'A' 'F' (by decide))]
  rfl

/-- No escape crosses into a text that does not start with a digit. -/
theorem hasEscape_append {s t : List Char} (h : ∀ c ∈ t.head?, isHex c = false) :
    hasEscape (s ++ t) = (hasEscape s || hasEscape t) := by
  have hhead : startsHex t = false := by
    cases t with
    | nil => rfl
    | cons c t => cases t <;> simp [startsHex, h c rfl]
  induction s with
  | nil => rfl
  | cons c s ih =>
    have hstart : startsHex (s ++ t) = startsHex s := by
      cases s with
      | nil => exact hhead
      | cons d s =>
        cases s with
        | nil =>
          cases t with
          | nil => rfl
          | cons e t => simp [startsHex, h e rfl]
        | cons e s => rfl
    rw [List.cons_append, hasEscape, hasEscape, hstart, ih, Bool.or_assoc]

theorem hasEscape_of_no_percent {t : List Char} (h : '%' ∉ t) : hasEscape t = false := by
  induction t with
  | nil => rfl
  | cons c t ih =>
    rw [List.mem_cons, not_or] at h
    rw [hasEscape, ih h.2]
    simp [Ne.symm h.1]

/-- Any other first character is a byte. -/
theorem unquoteToBytes_cons {c : Char} {t : List Char} (h : (c = '%' && startsHex t) = false) :
    unquoteToBytes (c :: t) = byteOf c :: unquoteToBytes t := by
  by_cases hc : c = '%'
  · subst hc
    have hno : startsHex t = false := by simpa using h
    cases t with
    | nil => rfl
    | cons d t =>
      cases t with
      | nil => rfl
      | cons e t =>
        rw [unquoteToBytes]
        split
        · rename_i a b hd he
          simp [startsHex, isHex, hd, he] at hno
        · rfl
  · rw [unquoteToBytes]
    intro _ _ _ h _
    exact hc h

/-- An escape is one byte. -/
theorem unquoteToBytes_escape {t : List Char} (h : startsHex t = true) :
    ∃ b, unquoteToBytes ('%' :: t) = b :: unquoteToBytes (t.drop 2) := by
  cases t with
  | nil => cases h
  | cons d t =>
    cases t with
    | nil => cases h
    | cons e t =>
      simp only [startsHex, isHex, Bool.and_eq_true, Option.isSome_iff_exists] at h
      obtain ⟨⟨a, ha⟩, b, hb⟩ := h
      refine ⟨UInt8.ofNat (16 * a + b), ?_⟩
      rw [unquoteToBytes, ha, hb]
      rfl

/-! ## Texts that are left as they are -/

theorem byteOf_eq {c : Char} (h : c.toNat < 128) : String.utf8EncodeChar c = [byteOf c] := by
  have hval : c.val.toNat ≤ 0x7f := Nat.le_of_lt_succ h
  simp only [String.utf8EncodeChar, if_pos hval]
  rfl

theorem decode_ascii {t : List Char} (h : ∀ c ∈ t, c.toNat < 128) : decode (t.map byteOf) = t := by
  induction t with
  | nil => rfl
  | cons c t ih =>
    rw [List.map_cons, ← List.singleton_append, ← byteOf_eq (h c List.mem_cons_self), decode_char,
      ih fun d hd => h d (List.mem_cons_of_mem _ hd)]

theorem unquoteToBytes_plain {t : List Char} (h : hasEscape t = false) : unquoteToBytes t = t.map byteOf := by
  induction t with
  | nil => rfl
  | cons c t ih =>
    rw [hasEscape, Bool.or_eq_false_iff] at h
    rw [unquoteToBytes_cons h.1, ih h.2, List.map_cons]

theorem hasEscape_split {run t : List Char} {c : Char} (hc : ¬ c.toNat < 128) :
    hasEscape (run.reverse ++ c :: t) = (hasEscape run.reverse || hasEscape t) := by
  have hpercent : c ≠ '%' := by rintro rfl; exact hc (by decide)
  have hhead : ∀ d ∈ (c :: t).head?, isHex d = false := by
    intro d hd
    obtain rfl := Option.some.inj hd
    exact not_hex_of_ascii hc
  rw [hasEscape_append hhead, hasEscape]
  simp [hpercent]

theorem decodeRuns_plain {run t : List Char} (hrun : ∀ c ∈ run, c.toNat < 128)
    (h : hasEscape (run.reverse ++ t) = false) : decodeRuns run t = run.reverse ++ t := by
  have hread : ∀ run : List Char, (∀ c ∈ run, c.toNat < 128) → hasEscape run.reverse = false →
      decode (unquoteToBytes run.reverse) = run.reverse := by
    intro run hrun h
    rw [unquoteToBytes_plain h]
    exact decode_ascii fun c hc => hrun c (List.mem_reverse.mp hc)
  induction t generalizing run with
  | nil =>
    rw [List.append_nil] at h ⊢
    exact hread run hrun h
  | cons c t ih =>
    rw [decodeRuns]
    split
    · rename_i hc
      have hassoc : (c :: run).reverse ++ t = run.reverse ++ c :: t := by simp
      rw [ih (List.forall_mem_cons.mpr ⟨hc, hrun⟩) (by rw [hassoc]; exact h), hassoc]
    · rename_i hc
      rw [hasEscape_split hc, Bool.or_eq_false_iff] at h
      have hrest : decodeRuns [] t = t := ih (fun _ hd => by cases hd) h.2
      rw [hread run hrun h.1, hrest]

/-! ## Texts that get shorter -/

/-- A byte for every character but two of each escape. -/
theorem length_unquoteToBytes (t : List Char) :
    (unquoteToBytes t).length ≤ t.length ∧ (hasEscape t = true → (unquoteToBytes t).length < t.length) := by
  induction hn : t.length using Nat.strongRecOn generalizing t with
  | _ n ih =>
    cases t with
    | nil => exact ⟨Nat.zero_le _, fun h => by cases h⟩
    | cons c t =>
      rw [List.length_cons] at hn
      by_cases hesc : (c = '%' && startsHex t) = true
      · simp only [Bool.and_eq_true, decide_eq_true_eq] at hesc
        obtain ⟨rfl, hstart⟩ := hesc
        obtain ⟨b, hb⟩ := unquoteToBytes_escape hstart
        have htwo : 2 ≤ t.length := by
          match t, hstart with
          | _ :: _ :: t, _ => simp
        have hrest := (ih (t.drop 2).length (by rw [List.length_drop]; omega) (t.drop 2) rfl).1
        rw [List.length_drop] at hrest
        rw [hb, List.length_cons]
        omega
      · rw [Bool.not_eq_true] at hesc
        have hrest := ih t.length (by omega) t rfl
        rw [unquoteToBytes_cons hesc, hasEscape, hesc, Bool.false_or, List.length_cons]
        exact ⟨by omega, fun h => by have := hrest.2 h; omega⟩

theorem length_decodeRuns (run t : List Char) :
    (decodeRuns run t).length ≤ run.length + t.length ∧
      (hasEscape (run.reverse ++ t) = true → (decodeRuns run t).length < run.length + t.length) := by
  have hread : ∀ run : List Char, (decode (unquoteToBytes run.reverse)).length ≤ run.length ∧
      (hasEscape run.reverse = true → (decode (unquoteToBytes run.reverse)).length < run.length) := by
    intro run
    have hbytes := length_unquoteToBytes run.reverse
    have hchars := length_decode_le (unquoteToBytes run.reverse)
    rw [List.length_reverse] at hbytes
    exact ⟨by omega, fun h => by have := hbytes.2 h; omega⟩
  induction t generalizing run with
  | nil =>
    rw [List.append_nil]
    exact hread run
  | cons c t ih =>
    rw [decodeRuns, List.length_cons]
    split
    · have hassoc : (c :: run).reverse ++ t = run.reverse ++ c :: t := by simp
      have hrest := ih (c :: run)
      rw [hassoc, List.length_cons] at hrest
      exact ⟨by omega, fun h => by have := hrest.2 h; omega⟩
    · rename_i hc
      have hfirst := hread run
      have hrest := ih []
      rw [List.reverse_nil, List.nil_append, List.length_nil] at hrest
      rw [hasEscape_split hc, List.length_append, List.length_cons]
      refine ⟨by omega, fun h => ?_⟩
      rcases Bool.or_eq_true_iff.mp h with h | h
      · have := hfirst.2 h; omega
      · have := hrest.2 h; omega

theorem unquote_of_no_escape {t : List Char} (h : hasEscape t = false) : unquote t = t := by
  unfold unquote
  split
  · exact decodeRuns_plain (fun _ hc => by cases hc) h
  · rfl

theorem unquote_shorter {t : List Char} (h : hasEscape t = true) : (unquote t).length < t.length := by
  have hpercent : t.contains '%' = true := by
    by_contra hno
    rw [List.contains_iff_mem] at hno
    rw [hasEscape_of_no_percent hno] at h
    cases h
  unfold unquote
  rw [if_pos hpercent]
  have hlen := (length_decodeRuns [] t).2 h
  simpa using hlen

theorem unquote_eq_self_iff {t : List Char} : unquote t = t ↔ hasEscape t = false := by
  constructor
  · intro h
    by_contra hesc
    have hlen := unquote_shorter (Bool.of_not_eq_false hesc)
    rw [h] at hlen
    exact Nat.lt_irrefl _ hlen
  · exact unquote_of_no_escape

/-! ## The round trip -/

def hexDigit (n : Nat) : Char := "0123456789ABCDEF".toList.getD n '0'

def escape (b : UInt8) : List Char := ['%', hexDigit (b.toNat / 16), hexDigit (b.toNat % 16)]

structure SafeSet where
  mem : Char → Bool
  ascii : ∀ c, mem c = true → c.toNat < 128
  noPercent : mem '%' = false

def quote (safe : SafeSet) (t : List Char) : List Char :=
  t.flatMap fun c => if safe.mem c then [c] else (String.utf8EncodeChar c).flatMap escape

theorem hexValue_hexDigit : ∀ n < 16, hexValue (hexDigit n) = some n := by decide

theorem hexDigit_ascii : ∀ n < 16, (hexDigit n).toNat < 128 := by decide

theorem unquoteToBytes_escaped (bs : List UInt8) (t : List Char) :
    unquoteToBytes (bs.flatMap escape ++ t) = bs ++ unquoteToBytes t := by
  induction bs with
  | nil => rfl
  | cons b bs ih =>
    have hhigh : b.toNat / 16 < 16 := by have := b.toNat_lt; omega
    have hlow : b.toNat % 16 < 16 := Nat.mod_lt _ (by decide)
    have hbyte : UInt8.ofNat (16 * (b.toNat / 16) + b.toNat % 16) = b := by
      rw [Nat.div_add_mod]
      exact UInt8.ofNat_toNat
    rw [List.flatMap_cons, List.append_assoc]
    show unquoteToBytes ('%' :: hexDigit (b.toNat / 16) :: hexDigit (b.toNat % 16) :: (bs.flatMap escape ++ t)) = _
    rw [unquoteToBytes, hexValue_hexDigit _ hhigh, hexValue_hexDigit _ hlow]
    simp only [hbyte, ih, List.cons_append]

section
variable (safe : SafeSet) (t : List Char)

theorem unquoteToBytes_quote : unquoteToBytes (quote safe t) = t.flatMap String.utf8EncodeChar := by
  unfold quote
  induction t with
  | nil => rfl
  | cons c t ih =>
    rw [List.flatMap_cons, List.flatMap_cons]
    split
    · rename_i hsafe
      have hpercent : c ≠ '%' := by
        rintro rfl
        rw [safe.noPercent] at hsafe
        cases hsafe
      rw [List.singleton_append, unquoteToBytes_cons (by simp [hpercent]), ih, byteOf_eq (safe.ascii c hsafe)]
      rfl
    · rw [unquoteToBytes_escaped, ih]

theorem quote_ascii : ∀ c ∈ quote safe t, c.toNat < 128 := by
  intro c hc
  obtain ⟨d, -, hc⟩ := List.mem_flatMap.mp hc
  split at hc
  · rename_i hsafe
    rw [List.mem_singleton.mp hc]
    exact safe.ascii d hsafe
  · obtain ⟨b, -, hc⟩ := List.mem_flatMap.mp hc
    have hhigh : b.toNat / 16 < 16 := by have := b.toNat_lt; omega
    have hlow : b.toNat % 16 < 16 := Nat.mod_lt _ (by decide)
    simp only [escape, List.mem_cons, List.not_mem_nil, or_false] at hc
    rcases hc with rfl | rfl | rfl
    · decide
    · exact hexDigit_ascii _ hhigh
    · exact hexDigit_ascii _ hlow

theorem decodeRuns_ascii {run t : List Char} (h : ∀ c ∈ t, c.toNat < 128) :
    decodeRuns run t = decode (unquoteToBytes (run.reverse ++ t)) := by
  induction t generalizing run with
  | nil => rw [List.append_nil]; rfl
  | cons c t ih =>
    rw [decodeRuns, if_pos (h c List.mem_cons_self), ih fun d hd => h d (List.mem_cons_of_mem _ hd)]
    simp

theorem decode_utf8 : decode (t.flatMap String.utf8EncodeChar) = t := by
  induction t with
  | nil => rfl
  | cons c t ih => rw [List.flatMap_cons, decode_char, ih]

/-- What is encoded once is decoded by one `unquote`. -/
theorem unquote_quote : unquote (quote safe t) = t := by
  have hdecoded : decodeRuns [] (quote safe t) = t := by
    rw [decodeRuns_ascii (quote_ascii safe t), List.reverse_nil, List.nil_append, unquoteToBytes_quote, decode_utf8]
  unfold unquote
  split
  · exact hdecoded
  · rename_i hno
    rw [List.contains_iff_mem] at hno
    have hplain : decodeRuns [] (quote safe t) = [].reverse ++ quote safe t :=
      decodeRuns_plain (fun _ hc => by cases hc) (hasEscape_of_no_percent hno)
    exact hplain.symm.trans hdecoded

end

end Percent
