/-
  CoreHeartbeat.Lib.PyJson — `json.dumps` with `ensure_ascii` on, and a reader of JSON.

  A value's floats are the text they are written as. The reader skips whitespace between tokens,
  reads the escapes of a string with their surrogate pairs, and keeps an object's fields in the
  order written. A number ends where no token character follows, so every lemma about one value
  is about the value with what comes after it.

  The writer takes the separators as a style (`", "` and `": "`, or without the spaces). The
  reader recurses on fuel, which the length of the text always covers (`need_le`); its result
  does not depend on how much of it there is. `NaN` and the infinities are read and written, as
  Python does unless it is told otherwise.

  Proved:
  - `readValue_dumps`, `loads_dumps`: what is written is read back, whatever whitespace the
    separators put after a comma or a colon, and whatever follows.
  - `dumps_inj`: two values are written the same only when they are the same.
  - `dumps_printable`: the text is one line of printable ASCII.
-/

import Mathlib.Data.List.Basic

namespace PyJson

inductive Value where
  | null
  | bool (b : Bool)
  | int (n : Int)
  /-- A float, by the text it is written as. -/
  | float (text : List Char)
  | str (s : String)
  | arr (items : List Value)
  | obj (fields : List (String × Value))
  deriving Repr

/-! ## Characters -/

def isBlank (c : Char) : Bool := c = ' ' || c = '\t' || c = '\n' || c = '\r'

/-- A character of a number or a literal name. -/
def isToken (c : Char) : Bool := c.isAlphanum || c = '+' || c = '-' || c = '.'

def isPrintable (c : Char) : Bool := ' ' ≤ c && c ≤ '~'

def skipBlanks (s : List Char) : List Char := s.dropWhile isBlank

/-! ## Writing -/

def hex4 (n : Nat) : List Char := [n / 4096 % 16, n / 256 % 16, n / 16 % 16, n % 16].map Nat.digitChar

def unicodeEscape (n : Nat) : List Char := '\\' :: 'u' :: hex4 n

def escape (c : Char) : List Char :=
  if c = '"' then ['\\', '"'] else if c = '\\' then ['\\', '\\']
  else if c = '\n' then ['\\', 'n'] else if c = '\r' then ['\\', 'r'] else if c = '\t' then ['\\', 't']
  else if c.toNat = 0x8 then ['\\', 'b'] else if c.toNat = 0xc then ['\\', 'f']
  else if isPrintable c then [c]
  else if c.toNat < 0x10000 then unicodeEscape c.toNat
  else
    unicodeEscape (0xd800 + (c.toNat - 0x10000) / 0x400) ++ unicodeEscape (0xdc00 + (c.toNat - 0x10000) % 0x400)

def quoted (s : String) : List Char := s.toList.flatMap escape ++ ['"']

def quote (s : String) : List Char := '"' :: quoted s

/-- The separators, by the whitespace they put after the comma and the colon. -/
structure Style where
  afterComma : List Char
  afterColon : List Char
  blank : ∀ c ∈ afterComma ++ afterColon, c = ' '

/-- `json.dumps` on its own: `", "` and `": "`. -/
def Style.spaced : Style := ⟨[' '], [' '], by simp⟩

/-- `separators=(",", ":")`. -/
def Style.compact : Style := ⟨[], [], by simp⟩

def dumps (st : Style) : Value → List Char
  | .null => ['n', 'u', 'l', 'l']
  | .bool true => ['t', 'r', 'u', 'e']
  | .bool false => ['f', 'a', 'l', 's', 'e']
  | .int n => (toString n).toList
  | .float text => text
  | .str s => quote s
  | .arr [] => ['[', ']']
  | .arr (v :: vs) => '[' :: dumps st v ++ restItems vs
  | .obj [] => ['\x7b', '\x7d']
  | .obj ((k, v) :: fs) => '\x7b' :: quote k ++ ':' :: st.afterColon ++ dumps st v ++ restFields fs
where
  restItems : List Value → List Char
    | [] => [']']
    | v :: vs => ',' :: st.afterComma ++ dumps st v ++ restItems vs
  restFields : List (String × Value) → List Char
    | [] => ['\x7d']
    | (k, v) :: fs =>
      ',' :: st.afterComma ++ quote k ++ ':' :: st.afterColon ++ dumps st v ++ restFields fs

def field (st : Style) (f : String × Value) : List Char := quote f.1 ++ ':' :: st.afterColon ++ dumps st f.2

theorem intercalate_items (st : Style) (v : Value) (vs : List Value) :
    (',' :: st.afterComma).intercalate ((v :: vs).map (dumps st)) ++ [']'] = dumps st v ++ dumps.restItems st vs := by
  induction vs generalizing v with
  | nil => rw [List.map_singleton, List.intercalate_singleton]; rfl
  | cons w vs ih =>
    rw [List.map_cons, List.map_cons, List.intercalate_cons_cons, ← List.map_cons, List.append_assoc,
      List.append_assoc, ih w, dumps.restItems]
    simp

theorem intercalate_fields (st : Style) (f : String × Value) (fs : List (String × Value)) :
    (',' :: st.afterComma).intercalate ((f :: fs).map (field st)) ++ ['\x7d'] =
      field st f ++ dumps.restFields st fs := by
  induction fs generalizing f with
  | nil => rw [List.map_singleton, List.intercalate_singleton]; rfl
  | cons g fs ih =>
    rw [List.map_cons, List.map_cons, List.intercalate_cons_cons, ← List.map_cons, List.append_assoc,
      List.append_assoc, ih g, dumps.restFields]
    simp [field]

/-- A list is its items, separated. -/
theorem dumps_arr (st : Style) (vs : List Value) :
    dumps st (.arr vs) = '[' :: ((',' :: st.afterComma).intercalate (vs.map (dumps st)) ++ [']']) := by
  cases vs with
  | nil => rfl
  | cons v vs => rw [intercalate_items]; rfl

/-- A dict is its fields, separated. -/
theorem dumps_obj (st : Style) (fs : List (String × Value)) :
    dumps st (.obj fs) = '\x7b' :: ((',' :: st.afterComma).intercalate (fs.map (field st)) ++ ['\x7d']) := by
  cases fs with
  | nil => rfl
  | cons f fs => rw [intercalate_fields]; simp [dumps, field]

/-! ## Reading -/

def hexVal (c : Char) : Option Nat :=
  if c.isDigit then some (c.toNat - 48)
  else if 'a' ≤ c ∧ c ≤ 'f' then some (c.toNat - 87)
  else if 'A' ≤ c ∧ c ≤ 'F' then some (c.toNat - 55)
  else none

def readHex4 : List Char → Option (Nat × List Char)
  | a :: b :: c :: d :: r => do
    let a ← hexVal a
    let b ← hexVal b
    let c ← hexVal c
    let d ← hexVal d
    return (((a * 16 + b) * 16 + c) * 16 + d, r)
  | _ => none

/-- What follows `\u`: a code unit, or a pair of surrogates. A lone one is no character. -/
def readUnicode (s : List Char) : Option (Char × List Char) := do
  let (n, r) ← readHex4 s
  if n < 0xd800 ∨ 0xe000 ≤ n then return (Char.ofNat n, r)
  else if 0xdc00 ≤ n then none
  else
    match r with
    | '\\' :: 'u' :: r =>
      let (m, r) ← readHex4 r
      if 0xdc00 ≤ m ∧ m < 0xe000 then return (Char.ofNat (0x10000 + (n - 0xd800) * 0x400 + (m - 0xdc00)), r) else none
    | _ => none

def readEscape : List Char → Option (Char × List Char)
  | '"' :: r => some ('"', r)
  | '\\' :: r => some ('\\', r)
  | '/' :: r => some ('/', r)
  | 'b' :: r => some (Char.ofNat 0x8, r)
  | 'f' :: r => some (Char.ofNat 0xc, r)
  | 'n' :: r => some ('\n', r)
  | 'r' :: r => some ('\r', r)
  | 't' :: r => some ('\t', r)
  | 'u' :: r => readUnicode r
  | _ => none

def readBody : Nat → List Char → Option (List Char × List Char)
  | 0, _ => none
  | _ + 1, [] => none
  | n + 1, c :: r =>
    if c = '"' then some ([], r)
    else if c = '\\' then do
      let (c, r) ← readEscape r
      let (cs, r) ← readBody n r
      return (c :: cs, r)
    else if c.toNat < 0x20 then none
    else do
      let (cs, r) ← readBody n r
      return (c :: cs, r)

def readString (s : List Char) : Option (String × List Char) :=
  (readBody s.length s).map fun (cs, r) => (String.ofList cs, r)

/-- A natural number without leading zeros. -/
def isNatural (t : List Char) : Bool := t ≠ [] && t.all Char.isDigit && (t.head? ≠ some '0' || t.length = 1)

def readInt : List Char → Option Int
  | '-' :: ds => if isNatural ds then some (-(Nat.ofDigitChars 10 ds 0 : Int)) else none
  | ds => if isNatural ds then some (Nat.ofDigitChars 10 ds 0 : Int) else none

def isDecimal (t : List Char) : Bool :=
  let body := if t.head? = some '-' then t.tail else t
  let afterWhole := body.dropWhile Char.isDigit
  let fraction := if afterWhole.head? = some '.' then afterWhole.tail.takeWhile Char.isDigit else []
  let afterFraction := if afterWhole.head? = some '.' then afterWhole.tail.dropWhile Char.isDigit else afterWhole
  let exponent := if afterFraction.head? = some 'e' ∨ afterFraction.head? = some 'E' then afterFraction.tail else []
  let digits := if exponent.head? = some '+' ∨ exponent.head? = some '-' then exponent.tail else exponent
  isNatural (body.takeWhile Char.isDigit) && (afterWhole.head? ≠ some '.' || fraction ≠ []) &&
    (afterFraction = [] || (digits ≠ [] && digits.all Char.isDigit)) && afterWhole ≠ []

/-- The text of a float: a decimal number that is no integer, or one of the three names. -/
def isFloat (t : List Char) : Bool :=
  t.all isToken && (readInt t).isNone &&
    (isDecimal t || t = "NaN".toList || t = "Infinity".toList || t = "-Infinity".toList)

def readToken (t : List Char) : Option Value :=
  if t = ['n', 'u', 'l', 'l'] then some .null
  else if t = ['t', 'r', 'u', 'e'] then some (.bool true)
  else if t = ['f', 'a', 'l', 's', 'e'] then some (.bool false)
  else match readInt t with
    | some n => some (.int n)
    | none => if isFloat t then some (.float t) else none

mutual

def readValue : Nat → List Char → Option (Value × List Char)
  | 0, _ => none
  | n + 1, s =>
    match skipBlanks s with
    | '"' :: r => (readString r).map fun (s, r) => (.str s, r)
    | '[' :: r =>
      match skipBlanks r with
      | ']' :: r => some (.arr [], r)
      | r => (readItems n r).map fun (vs, r) => (.arr vs, r)
    | '\x7b' :: r =>
      match skipBlanks r with
      | '\x7d' :: r => some (.obj [], r)
      | r => (readFields n r).map fun (fs, r) => (.obj fs, r)
    | s => (readToken (s.takeWhile isToken)).map fun v => (v, s.dropWhile isToken)

def readItems : Nat → List Char → Option (List Value × List Char)
  | 0, _ => none
  | n + 1, s => do
    let (v, r) ← readValue n s
    match skipBlanks r with
    | ',' :: r =>
      let (vs, r) ← readItems n r
      return (v :: vs, r)
    | ']' :: r => return ([v], r)
    | _ => none

def readFields : Nat → List Char → Option (List (String × Value) × List Char)
  | 0, _ => none
  | n + 1, s =>
    match skipBlanks s with
    | '"' :: r => do
      let (k, r) ← readString r
      match skipBlanks r with
      | ':' :: r =>
        let (v, r) ← readValue n r
        match skipBlanks r with
        | ',' :: r =>
          let (fs, r) ← readFields n r
          return ((k, v) :: fs, r)
        | '\x7d' :: r => return ([(k, v)], r)
        | _ => none
      | _ => none
    | _ => none

end

/-- `json.loads(text)`; `none` when it raises. -/
def loads (s : List Char) : Option Value :=
  match readValue (2 * s.length + 2) s with
  | some (v, r) => if skipBlanks r = [] then some v else none
  | none => none

/-! ## Strings read back -/

theorem hexVal_digitChar : ∀ d, d < 16 → hexVal (Nat.digitChar d) = some d := by decide

theorem readHex4_hex4 {n : Nat} (h : n < 0x10000) (r : List Char) : readHex4 (hex4 n ++ r) = some (n, r) := by
  have hdigit (d : Nat) : hexVal (Nat.digitChar (d % 16)) = some (d % 16) :=
    hexVal_digitChar _ (Nat.mod_lt _ (by decide))
  have hsum : ((n / 4096 % 16 * 16 + n / 256 % 16) * 16 + n / 16 % 16) * 16 + n % 16 = n := by omega
  simp [hex4, readHex4, hdigit, hsum]

theorem toNat_valid (c : Char) : c.toNat < 0xd800 ∨ 0xe000 ≤ c.toNat ∧ c.toNat < 0x110000 := by
  have h := c.valid
  simp only [UInt32.isValidChar, Nat.isValidChar] at h
  show c.val.toNat < 0xd800 ∨ 0xe000 ≤ c.val.toNat ∧ c.val.toNat < 0x110000
  omega

theorem readUnicode_unit {c : Char} (h : c.toNat < 0x10000) (r : List Char) :
    readUnicode (hex4 c.toNat ++ r) = some (c, r) := by
  have hvalid := toNat_valid c
  have hunit : c.toNat < 0xd800 ∨ 0xe000 ≤ c.toNat := by omega
  simp [readUnicode, readHex4_hex4 h, hunit]

theorem readUnicode_pair {n m : Nat} (hn : 0xd800 ≤ n ∧ n < 0xdc00) (hm : 0xdc00 ≤ m ∧ m < 0xe000) (r : List Char) :
    readUnicode (hex4 n ++ (unicodeEscape m ++ r)) =
      some (Char.ofNat (0x10000 + (n - 0xd800) * 0x400 + (m - 0xdc00)), r) := by
  have hunit : ¬ (n < 0xd800 ∨ 0xe000 ≤ n) := by omega
  have hlow : ¬ 0xdc00 ≤ n := by omega
  unfold readUnicode
  rw [readHex4_hex4 (by omega)]
  simp only [Option.bind_eq_bind, Option.bind_some, if_neg hunit, if_neg hlow, unicodeEscape, List.cons_append]
  rw [readHex4_hex4 (by omega)]
  simp only [Option.bind_some, if_pos hm]
  rfl

theorem readUnicode_astral {c : Char} (h : 0x10000 ≤ c.toNat) (r : List Char) :
    readUnicode (hex4 (0xd800 + (c.toNat - 0x10000) / 0x400) ++
      (unicodeEscape (0xdc00 + (c.toNat - 0x10000) % 0x400) ++ r)) = some (c, r) := by
  have hvalid := toNat_valid c
  have hchar : 0x10000 + (0xd800 + (c.toNat - 0x10000) / 0x400 - 0xd800) * 0x400 +
      (0xdc00 + (c.toNat - 0x10000) % 0x400 - 0xdc00) = c.toNat := by omega
  rw [readUnicode_pair (by omega) (by omega), hchar, Char.ofNat_toNat]

/-- One step of the reader undoes one character's escape. -/
theorem readBody_escape (c : Char) (n : Nat) (r : List Char) :
    readBody (n + 1) (escape c ++ r) = (readBody n r).map fun (cs, r) => (c :: cs, r) := by
  have hbind (r : List Char) : (do let (cs, r) ← readBody n r; return (c :: cs, r) : Option (List Char × List Char)) =
      (readBody n r).map fun (cs, r) => (c :: cs, r) := by
    cases readBody n r <;> rfl
  have hescape {s : List Char} (h : readEscape s = some (c, r)) :
      readBody (n + 1) ('\\' :: s) = (readBody n r).map fun (cs, r) => (c :: cs, r) := by
    simp only [readBody, h]
    exact hbind r
  have hofNat {k : Nat} (h : c.toNat = k) : c = Char.ofNat k := by rw [← h, Char.ofNat_toNat]
  unfold escape
  split_ifs with hquote hslash hnl hcr htab hbs hff hplain hunit
  · subst hquote; exact hescape rfl
  · subst hslash; exact hescape rfl
  · subst hnl; exact hescape rfl
  · subst hcr; exact hescape rfl
  · subst htab; exact hescape rfl
  · rw [hofNat hbs] at hescape ⊢; exact hescape rfl
  · rw [hofNat hff] at hescape ⊢; exact hescape rfl
  · have hcontrol : ¬ c.toNat < 0x20 := by
      simp only [isPrintable, Bool.and_eq_true, decide_eq_true_eq] at hplain
      exact Nat.not_lt.mpr hplain.1
    simp only [List.singleton_append, readBody, if_neg hquote, if_neg hslash, if_neg hcontrol]
    exact hbind r
  · exact hescape (readUnicode_unit hunit r)
  · simp only [List.append_assoc]
    exact hescape (readUnicode_astral (by omega) r)

theorem escape_ne_nil (c : Char) : escape c ≠ [] := by
  unfold escape
  split_ifs <;> simp [unicodeEscape]

theorem readBody_flatMap {cs : List Char} {n : Nat} (h : cs.length < n) (r : List Char) :
    readBody n (cs.flatMap escape ++ '"' :: r) = some (cs, r) := by
  induction cs generalizing n with
  | nil => obtain ⟨n, rfl⟩ := Nat.exists_eq_succ_of_ne_zero (Nat.ne_of_gt h); rfl
  | cons c cs ih =>
    obtain ⟨n, rfl⟩ := Nat.exists_eq_succ_of_ne_zero (Nat.ne_of_gt (Nat.zero_lt_of_lt h))
    rw [List.flatMap_cons, List.append_assoc, readBody_escape, ih (by simpa using h)]
    rfl

theorem readString_quoted (s : String) (r : List Char) : readString (quoted s ++ r) = some (s, r) := by
  have hlen : ∀ cs : List Char, cs.length ≤ (cs.flatMap escape).length := by
    intro cs
    induction cs with
    | nil => exact Nat.le_refl _
    | cons c cs ih =>
      have := List.length_pos_of_ne_nil (escape_ne_nil c)
      simp only [List.flatMap_cons, List.length_append, List.length_cons]
      omega
  have hfuel : s.toList.length < (s.toList.flatMap escape ++ '"' :: r).length := by
    have := hlen s.toList
    simp only [List.length_append, List.length_cons]
    omega
  simp only [quoted, List.append_assoc, List.cons_append, List.nil_append, readString,
    readBody_flatMap hfuel, Option.map_some, String.ofList_toList]

/-! ## Tokens read back -/

theorem toDigits_head {n : Nat} (h : 0 < n) : (Nat.toDigits 10 n).head? ≠ some '0' := by
  induction n using Nat.strongRecOn with
  | _ n ih =>
    by_cases hn : n < 10
    · rw [Nat.toDigits_of_lt_base hn]
      have hdigit : ∀ d, d < 10 → 0 < d → [Nat.digitChar d].head? ≠ some '0' := by decide
      exact hdigit n hn h
    · have hpre := ih (n / 10) (by omega) (by omega)
      rw [Nat.toDigits_of_base_le (by decide) (by omega)]
      cases hd : Nat.toDigits 10 (n / 10) with
      | nil => exact absurd hd Nat.toDigits_ne_nil
      | cons d ds => rw [hd] at hpre; exact hpre

theorem isDigit_toDigits (n : Nat) : (Nat.toDigits 10 n).all Char.isDigit = true :=
  List.all_eq_true.mpr fun _ hc => Nat.isDigit_of_mem_toDigits (by decide) (by decide) hc

theorem isNatural_toDigits (n : Nat) : isNatural (Nat.toDigits 10 n) = true := by
  have hne : Nat.toDigits 10 n ≠ [] := Nat.toDigits_ne_nil
  have hhead : (Nat.toDigits 10 n).head? ≠ some '0' ∨ (Nat.toDigits 10 n).length = 1 := by
    rcases Nat.eq_zero_or_pos n with rfl | h
    · exact .inr rfl
    · exact .inl (toDigits_head h)
  simp only [isNatural, isDigit_toDigits, Bool.and_true, Bool.and_eq_true, Bool.or_eq_true, decide_eq_true_eq]
  exact ⟨hne, hhead⟩

theorem readInt_digits {ds : List Char} (h : isNatural ds = true) : readInt ds = some (Nat.ofDigitChars 10 ds 0 : Int) := by
  unfold readInt
  split
  · simp [isNatural] at h
  · rw [if_pos h]

theorem toList_int (n : Int) :
    (toString n).toList = if n < 0 then '-' :: Nat.toDigits 10 n.natAbs else Nat.toDigits 10 n.natAbs := by
  cases n with
  | ofNat n => simp [toString, Int.repr]
  | negSucc n => simp [toString, Int.repr]

theorem readInt_int (n : Int) : readInt (toString n).toList = some n := by
  rw [toList_int]
  split
  · simp only [readInt, if_pos (isNatural_toDigits _), Nat.ofDigitChars_ten_toDigits]
    congr 1
    omega
  · rw [readInt_digits (isNatural_toDigits _), Nat.ofDigitChars_ten_toDigits]
    congr 1
    omega

/-! ## Values read back -/

/-- What can follow a number without being taken for a part of it. -/
def Ends (r : List Char) : Prop := ∀ c ∈ r.head?, isToken c = false

theorem ends_nil : Ends [] := by simp [Ends]

theorem ends_cons {c : Char} (h : isToken c = false) (r : List Char) : Ends (c :: r) := by simp [Ends, h]

/-- A value of which every float is the text of one. -/
def floatsOk : Value → Bool
  | .float text => isFloat text
  | .arr items => itemsOk items
  | .obj fields => fieldsOk fields
  | _ => true
where
  itemsOk : List Value → Bool
    | [] => true
    | v :: vs => floatsOk v && itemsOk vs
  fieldsOk : List (String × Value) → Bool
    | [] => true
    | (_, v) :: fs => floatsOk v && fieldsOk fs

theorem takeWhile_token {t r : List Char} (ht : t.all isToken = true) (hr : Ends r) :
    (t ++ r).takeWhile isToken = t ∧ (t ++ r).dropWhile isToken = r := by
  have hall := List.all_eq_true.mp ht
  rw [List.takeWhile_append_of_pos hall, List.dropWhile_append_of_pos hall]
  cases r with
  | nil => simp
  | cons c r =>
    have hc : isToken c = false := hr c rfl
    simp [hc]

/-- A value that is no string and no container is read as one token. -/
theorem readValue_tokens {t : List Char} (ht : t.all isToken = true) (hne : t ≠ []) {n : Nat} {r : List Char} (hr : Ends r) :
    readValue (n + 1) (t ++ r) = (readToken t).map fun v => (v, r) := by
  obtain ⟨c, t, rfl⟩ := List.exists_cons_of_ne_nil hne
  have hc : isToken c = true := by
    rw [List.all_cons, Bool.and_eq_true] at ht
    exact ht.1
  have hblank : isBlank c = false := by
    cases hb : isBlank c with
    | false => rfl
    | true =>
      simp only [isBlank, Bool.or_eq_true, decide_eq_true_eq] at hb
      rcases hb with ((rfl | rfl) | rfl) | rfl <;> exact absurd hc (by decide)
  have hskip : skipBlanks (c :: t ++ r) = c :: t ++ r := by simp [skipBlanks, hblank]
  obtain ⟨htake, hdrop⟩ := takeWhile_token ht hr
  rw [readValue, hskip]
  split
  · next h => cases h; exact absurd hc (by decide)
  · next h => cases h; exact absurd hc (by decide)
  · next h => cases h; exact absurd hc (by decide)
  · rw [htake, hdrop]

theorem readValue_token {t : List Char} {v : Value} (hv : readToken t = some v) (ht : t.all isToken = true)
    (hne : t ≠ []) {n : Nat} {r : List Char} (hr : Ends r) : readValue (n + 1) (t ++ r) = some (v, r) := by
  rw [readValue_tokens ht hne hr, hv, Option.map_some]

theorem isToken_int (n : Int) : (toString n).toList.all isToken = true := by
  have hdigits : (Nat.toDigits 10 n.natAbs).all isToken = true := by
    refine List.all_eq_true.mpr fun c hc => ?_
    have hdigit := List.all_eq_true.mp (isDigit_toDigits n.natAbs) c hc
    simp [isToken, Char.isAlphanum, hdigit]
  rw [toList_int]
  split
  · rw [List.all_cons, hdigits]; rfl
  · exact hdigits

theorem readToken_int (n : Int) : readToken (toString n).toList = some (.int n) := by
  have hname {t : List Char} (h : readInt t = none) : (toString n).toList ≠ t := by
    intro e
    rw [← e, readInt_int] at h
    cases h
  unfold readToken
  rw [if_neg (hname rfl), if_neg (hname rfl), if_neg (hname rfl), readInt_int]

theorem readToken_float {t : List Char} (h : isFloat t = true) : readToken t = some (.float t) := by
  have hname {s : List Char} (hs : isFloat s = false) : t ≠ s := by
    rintro rfl
    rw [h] at hs
    cases hs
  have hint : readInt t = none := by
    simp only [isFloat, Bool.and_eq_true, Option.isNone_iff_eq_none] at h
    exact h.1.2
  unfold readToken
  rw [if_neg (hname rfl), if_neg (hname rfl), if_neg (hname rfl), hint]
  simp only [h, if_true]

theorem isToken_float {t : List Char} (h : isFloat t = true) : t.all isToken = true := by
  simp only [isFloat, Bool.and_eq_true] at h
  exact h.1.1

/-- How deep the reader goes into a value. -/
def need : Value → Nat
  | .arr items => 1 + needItems items
  | .obj fields => 1 + needFields fields
  | _ => 1
where
  needItems : List Value → Nat
    | [] => 0
    | v :: vs => 1 + max (need v) (needItems vs)
  needFields : List (String × Value) → Nat
    | [] => 0
    | (_, v) :: fs => 1 + max (need v) (needFields fs)

theorem need_pos (v : Value) : 0 < need v := by cases v <;> simp only [need] <;> omega

theorem skipBlanks_spaces {p : List Char} (hp : ∀ c ∈ p, c = ' ') (s : List Char) :
    skipBlanks (p ++ s) = skipBlanks s :=
  List.dropWhile_append_of_pos fun c hc => by rw [hp c hc]; rfl

theorem Style.comma_blank (st : Style) : ∀ c ∈ st.afterComma, c = ' ' := fun c hc =>
  st.blank c (List.mem_append_left _ hc)

theorem Style.colon_blank (st : Style) : ∀ c ∈ st.afterColon, c = ' ' := fun c hc =>
  st.blank c (List.mem_append_right _ hc)

theorem readValue_spaces {p : List Char} (hp : ∀ c ∈ p, c = ' ') (n : Nat) (s : List Char) :
    readValue n (p ++ s) = readValue n s := by
  cases n with
  | zero => rfl
  | succ n => rw [readValue, readValue, skipBlanks_spaces hp]

theorem readItems_spaces {p : List Char} (hp : ∀ c ∈ p, c = ' ') (n : Nat) (s : List Char) :
    readItems n (p ++ s) = readItems n s := by
  cases n with
  | zero => rfl
  | succ n => rw [readItems, readItems, readValue_spaces hp]

theorem readFields_spaces {p : List Char} (hp : ∀ c ∈ p, c = ' ') (n : Nat) (s : List Char) :
    readFields n (p ++ s) = readFields n s := by
  cases n with
  | zero => rfl
  | succ n => rw [readFields, readFields, skipBlanks_spaces hp]

/-- A written value starts with no whitespace and no closing bracket. -/
theorem dumps_head (st : Style) {v : Value} (h : floatsOk v = true) :
    ∃ c s, dumps st v = c :: s ∧ isBlank c = false ∧ c ≠ ']' := by
  have htoken {t : List Char} (hne : t ≠ []) (ht : t.all isToken = true) :
      ∃ c s, t = c :: s ∧ isBlank c = false ∧ c ≠ ']' := by
    obtain ⟨c, s, rfl⟩ := List.exists_cons_of_ne_nil hne
    rw [List.all_cons, Bool.and_eq_true] at ht
    refine ⟨c, s, rfl, ?_, ?_⟩
    · by_contra hb
      simp only [isBlank, Bool.not_eq_false, Bool.or_eq_true, decide_eq_true_eq] at hb
      rcases hb with ((rfl | rfl) | rfl) | rfl <;> exact absurd ht.1 (by decide)
    · rintro rfl
      exact absurd ht.1 (by decide)
  cases v with
  | null => exact ⟨_, _, rfl, rfl, by decide⟩
  | bool b => cases b <;> exact ⟨_, _, rfl, rfl, by decide⟩
  | int n =>
    refine htoken (fun e => ?_) (isToken_int n)
    have := readInt_int n
    rw [show (toString n).toList = [] from e] at this
    cases this
  | float t =>
    refine htoken (fun e => ?_) (isToken_float h)
    rw [show t = [] from e] at h
    cases h
  | str s => exact ⟨_, _, rfl, rfl, by decide⟩
  | arr items => cases items <;> exact ⟨_, _, rfl, rfl, by decide⟩
  | obj fields => cases fields <;> exact ⟨_, _, rfl, rfl, by decide⟩

theorem skipBlanks_cons {c : Char} (h : isBlank c = false) (s : List Char) : skipBlanks (c :: s) = c :: s := by
  simp [skipBlanks, h]

theorem ends_restItems (st : Style) (vs : List Value) (r : List Char) : Ends (dumps.restItems st vs ++ r) := by
  cases vs <;> exact ends_cons rfl _

theorem ends_restFields (st : Style) (fs : List (String × Value)) (r : List Char) :
    Ends (dumps.restFields st fs ++ r) := by
  cases fs <;> exact ends_cons rfl _

mutual

/-- What is written is read back, whatever comes after it. -/
theorem readValue_dumps (st : Style) (v : Value) (n : Nat) (r : List Char) (hv : floatsOk v = true) (hn : need v ≤ n)
    (hr : Ends r) : readValue n (dumps st v ++ r) = some (v, r) := by
  obtain ⟨n, rfl⟩ := Nat.exists_eq_succ_of_ne_zero (Nat.ne_of_gt (Nat.lt_of_lt_of_le (need_pos v) hn))
  match v with
  | .null => exact readValue_token rfl rfl (List.cons_ne_nil _ _) hr
  | .bool true => exact readValue_token rfl rfl (List.cons_ne_nil _ _) hr
  | .bool false => exact readValue_token rfl rfl (List.cons_ne_nil _ _) hr
  | .int i =>
    obtain ⟨c, s, hc, -, -⟩ := dumps_head st (v := .int i) rfl
    exact readValue_token (readToken_int i) (isToken_int i) (fun e => by rw [dumps, e] at hc; cases hc) hr
  | .float t =>
    obtain ⟨c, s, hc, -, -⟩ := dumps_head st hv
    exact readValue_token (readToken_float hv) (isToken_float hv) (fun e => by rw [dumps, e] at hc; cases hc) hr
  | .str s =>
    rw [dumps, quote, List.cons_append, readValue, skipBlanks_cons rfl]
    simp only [readString_quoted, Option.map_some]
  | .arr [] =>
    rw [dumps, List.cons_append, readValue, skipBlanks_cons rfl]
    rfl
  | .arr (v :: vs) =>
    simp only [floatsOk, floatsOk.itemsOk, Bool.and_eq_true] at hv
    obtain ⟨c, s, hc, hblank, hclose⟩ := dumps_head st hv.1
    have hitems := readItems_dumps st v vs n r hv.1 hv.2 (by simp only [need, need.needItems] at hn ⊢; omega)
    have hskip : skipBlanks (dumps st v ++ (dumps.restItems st vs ++ r)) = dumps st v ++ (dumps.restItems st vs ++ r) := by
      rw [hc, List.cons_append, skipBlanks_cons hblank]
    rw [dumps, List.append_assoc, List.cons_append, readValue, skipBlanks_cons rfl]
    simp only [hskip]
    split
    · next e =>
      rw [hc, List.cons_append] at e
      exact absurd (List.head_eq_of_cons_eq e) hclose
    · rw [hitems, Option.map_some]
  | .obj [] =>
    rw [dumps, List.cons_append, readValue, skipBlanks_cons rfl]
    rfl
  | .obj ((k, v) :: fs) =>
    simp only [floatsOk, floatsOk.fieldsOk, Bool.and_eq_true] at hv
    have hfields := readFields_dumps st k v fs n r hv.1 hv.2 (by simp only [need, need.needFields] at hn ⊢; omega)
    simp only [dumps, quote, List.append_assoc, List.cons_append] at hfields ⊢
    rw [readValue, skipBlanks_cons rfl]
    simp only [skipBlanks_cons (c := '"') rfl]
    show (readFields n _).map _ = _
    rw [hfields]
    rfl
termination_by n

theorem readItems_dumps (st : Style) (v : Value) (vs : List Value) (n : Nat) (r : List Char) (hv : floatsOk v = true)
    (hvs : floatsOk.itemsOk vs = true) (hn : 1 + max (need v) (need.needItems vs) ≤ n) :
    readItems n (dumps st v ++ (dumps.restItems st vs ++ r)) = some (v :: vs, r) := by
  obtain ⟨n, rfl⟩ := Nat.exists_eq_succ_of_ne_zero (n := n) (by omega)
  have hfirst := readValue_dumps st v n (dumps.restItems st vs ++ r) hv (by omega) (ends_restItems st vs r)
  rw [readItems, hfirst]
  match vs with
  | [] => rfl
  | w :: vs =>
    simp only [floatsOk.itemsOk, Bool.and_eq_true] at hvs
    have hrest := readItems_dumps st w vs n r hvs.1 hvs.2 (by simp only [need.needItems] at hn; omega)
    simp only [dumps.restItems, Option.bind_eq_bind, Option.bind_some, List.append_assoc, List.cons_append,
      skipBlanks_cons (c := ',') rfl, readItems_spaces st.comma_blank, hrest]
    rfl
termination_by n

theorem readFields_dumps (st : Style) (k : String) (v : Value) (fs : List (String × Value)) (n : Nat) (r : List Char)
    (hv : floatsOk v = true) (hfs : floatsOk.fieldsOk fs = true) (hn : 1 + max (need v) (need.needFields fs) ≤ n) :
    readFields n (quote k ++ (':' :: st.afterColon ++ (dumps st v ++ (dumps.restFields st fs ++ r)))) =
      some ((k, v) :: fs, r) := by
  obtain ⟨n, rfl⟩ := Nat.exists_eq_succ_of_ne_zero (n := n) (by omega)
  have hfirst := readValue_dumps st v n (dumps.restFields st fs ++ r) hv (by omega) (ends_restFields st fs r)
  rw [quote, List.cons_append, readFields, skipBlanks_cons rfl]
  simp only [readString_quoted, Option.bind_eq_bind, Option.bind_some, List.cons_append,
    skipBlanks_cons (c := ':') rfl, readValue_spaces st.colon_blank, hfirst]
  match fs with
  | [] => rfl
  | (k', w) :: fs =>
    simp only [floatsOk.fieldsOk, Bool.and_eq_true] at hfs
    have hrest := readFields_dumps st k' w fs n r hfs.1 hfs.2 (by simp only [need.needFields] at hn; omega)
    simp only [dumps.restFields, List.append_assoc, List.cons_append, skipBlanks_cons (c := ',') rfl,
      readFields_spaces st.comma_blank]
    simp only [List.cons_append] at hrest
    rw [hrest]
    rfl
termination_by n

end

theorem length_pos_dumps (st : Style) {v : Value} (h : floatsOk v = true) : 0 < (dumps st v).length := by
  obtain ⟨c, s, hs, -, -⟩ := dumps_head st h
  rw [hs]
  exact Nat.succ_pos _

mutual

/-- The text is long enough to be the reader's fuel. -/
theorem need_le (st : Style) (v : Value) (h : floatsOk v = true) : need v ≤ 2 * (dumps st v).length := by
  have hpos := length_pos_dumps st h
  match v with
  | .null | .bool _ | .int _ | .float _ | .str _ => simp only [need]; omega
  | .arr [] => simp only [need, need.needItems]; omega
  | .arr (v :: vs) =>
    simp only [floatsOk, floatsOk.itemsOk, Bool.and_eq_true] at h
    have hfirst := need_le st v h.1
    have hrest := needItems_le st vs h.2
    simp only [need, need.needItems, dumps, List.cons_append, List.length_cons, List.length_append]
    omega
  | .obj [] => simp only [need, need.needFields]; omega
  | .obj ((k, v) :: fs) =>
    simp only [floatsOk, floatsOk.fieldsOk, Bool.and_eq_true] at h
    have hfirst := need_le st v h.1
    have hrest := needFields_le st fs h.2
    simp only [need, need.needFields, dumps, List.cons_append, List.length_cons, List.length_append]
    omega

theorem needItems_le (st : Style) (vs : List Value) (h : floatsOk.itemsOk vs = true) :
    need.needItems vs ≤ 2 * (dumps.restItems st vs).length := by
  match vs with
  | [] => exact Nat.zero_le _
  | v :: vs =>
    simp only [floatsOk.itemsOk, Bool.and_eq_true] at h
    have hfirst := need_le st v h.1
    have hrest := needItems_le st vs h.2
    simp only [need.needItems, dumps.restItems, List.cons_append, List.length_cons, List.length_append]
    omega

theorem needFields_le (st : Style) (fs : List (String × Value)) (h : floatsOk.fieldsOk fs = true) :
    need.needFields fs ≤ 2 * (dumps.restFields st fs).length := by
  match fs with
  | [] => exact Nat.zero_le _
  | (k, v) :: fs =>
    simp only [floatsOk.fieldsOk, Bool.and_eq_true] at h
    have hfirst := need_le st v h.1
    have hrest := needFields_le st fs h.2
    simp only [need.needFields, dumps.restFields, List.cons_append, List.length_cons, List.length_append]
    omega

end

/-- `json.loads(json.dumps(v)) == v`. -/
theorem loads_dumps (st : Style) {v : Value} (h : floatsOk v = true) : loads (dumps st v) = some v := by
  have hread := readValue_dumps st v (2 * (dumps st v).length + 2) [] h
    (Nat.le_trans (need_le st v h) (Nat.le_add_right _ _)) ends_nil
  rw [List.append_nil] at hread
  rw [loads, hread]
  rfl

theorem dumps_inj (st : Style) {v w : Value} (hv : floatsOk v = true) (hw : floatsOk w = true) :
    dumps st v = dumps st w ↔ v = w := by
  constructor
  · intro h
    have hread := loads_dumps st hv
    rw [h, loads_dumps st hw] at hread
    exact (Option.some.inj hread).symm
  · rintro rfl
    rfl

/-! ## One line of printable ASCII -/

theorem printable_digit : ∀ d, d < 16 → isPrintable (Nat.digitChar d) = true := by decide

theorem printable_unicode (n : Nat) : (unicodeEscape n).all isPrintable = true := by
  have hdigit (d : Nat) : isPrintable (Nat.digitChar (d % 16)) = true :=
    printable_digit _ (Nat.mod_lt _ (by decide))
  simp only [unicodeEscape, hex4, List.map_cons, List.map_nil, List.all_cons, List.all_nil, hdigit, Bool.and_true]
  rfl

theorem printable_escape (c : Char) : (escape c).all isPrintable = true := by
  unfold escape
  split_ifs with hquote hslash hnl hcr htab hbs hff hplain hunit
  · rfl
  · rfl
  · rfl
  · rfl
  · rfl
  · rfl
  · rfl
  · simp [hplain]
  · exact printable_unicode _
  · rw [List.all_append, printable_unicode, printable_unicode]; rfl

theorem printable_token {t : List Char} (h : t.all isToken = true) : t.all isPrintable = true := by
  refine List.all_eq_true.mpr fun c hc => ?_
  have hc := List.all_eq_true.mp h c hc
  have hrange : isPrintable c = true ↔ 0x20 ≤ c.toNat ∧ c.toNat ≤ 0x7e := by
    simp only [isPrintable, Bool.and_eq_true, decide_eq_true_eq]
    exact Iff.rfl
  rw [hrange]
  unfold isToken Char.isAlphanum Char.isAlpha Char.isUpper Char.isLower Char.isDigit at hc
  simp only [Bool.or_eq_true, Bool.and_eq_true, decide_eq_true_eq, ge_iff_le, UInt32.le_iff_toNat_le] at hc
  rcases hc with ((((⟨h1, h2⟩ | ⟨h1, h2⟩) | ⟨h1, h2⟩) | rfl) | rfl) | rfl
  · exact ⟨Nat.le_trans (by decide) h1, Nat.le_trans h2 (by decide)⟩
  · exact ⟨Nat.le_trans (by decide) h1, Nat.le_trans h2 (by decide)⟩
  · exact ⟨Nat.le_trans (by decide) h1, Nat.le_trans h2 (by decide)⟩
  · decide
  · decide
  · decide

theorem printable_spaces {p : List Char} (hp : ∀ c ∈ p, c = ' ') : p.all isPrintable = true :=
  List.all_eq_true.mpr fun c hc => by rw [hp c hc]; rfl

theorem printable_quote (s : String) : (quote s).all isPrintable = true := by
  have hbody : (s.toList.flatMap escape).all isPrintable = true := by
    rw [List.all_flatMap]
    exact List.all_eq_true.mpr fun c _ => printable_escape c
  rw [quote, quoted, List.all_cons, List.all_append, hbody]
  rfl

mutual

theorem dumps_printable (st : Style) (v : Value) (h : floatsOk v = true) : (dumps st v).all isPrintable = true := by
  match v with
  | .null => rfl
  | .bool true => rfl
  | .bool false => rfl
  | .int n => exact printable_token (isToken_int n)
  | .float t => exact printable_token (isToken_float h)
  | .str s => exact printable_quote s
  | .arr [] => rfl
  | .arr (v :: vs) =>
    simp only [floatsOk, floatsOk.itemsOk, Bool.and_eq_true] at h
    rw [dumps, List.cons_append, List.all_cons, List.all_append, dumps_printable st v h.1,
      restItems_printable st vs h.2]
    rfl
  | .obj [] => rfl
  | .obj ((k, v) :: fs) =>
    simp only [floatsOk, floatsOk.fieldsOk, Bool.and_eq_true] at h
    simp only [dumps, List.cons_append, List.all_cons, List.all_append, printable_quote,
      printable_spaces st.colon_blank, dumps_printable st v h.1, restFields_printable st fs h.2]
    rfl

theorem restItems_printable (st : Style) (vs : List Value) (h : floatsOk.itemsOk vs = true) :
    (dumps.restItems st vs).all isPrintable = true := by
  match vs with
  | [] => rfl
  | v :: vs =>
    simp only [floatsOk.itemsOk, Bool.and_eq_true] at h
    simp only [dumps.restItems, List.cons_append, List.all_cons, List.all_append, printable_spaces st.comma_blank,
      dumps_printable st v h.1, restItems_printable st vs h.2]
    rfl

theorem restFields_printable (st : Style) (fs : List (String × Value)) (h : floatsOk.fieldsOk fs = true) :
    (dumps.restFields st fs).all isPrintable = true := by
  match fs with
  | [] => rfl
  | (k, v) :: fs =>
    simp only [floatsOk.fieldsOk, Bool.and_eq_true] at h
    simp only [dumps.restFields, List.cons_append, List.all_cons, List.all_append, printable_quote,
      printable_spaces st.comma_blank, printable_spaces st.colon_blank, dumps_printable st v h.1,
      restFields_printable st fs h.2]
    rfl

end

end PyJson
