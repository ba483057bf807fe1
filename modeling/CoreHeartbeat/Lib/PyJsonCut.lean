/-
  CoreHeartbeat.Lib.PyJsonCut — what the reader of JSON makes of written values that were cut
  and written on.

  After a part of a value comes nothing, or another object. Inside a string that object's first
  quote closes the string, and the key that follows it is not what can follow a string;
  everywhere else a bracket stays open, or a token runs into the brace that follows. So nothing
  that begins with a cut object is JSON.

  `Tail` is what comes after a cut: nothing, or texts that each begin an object whose first key
  is such a one (`Sealed`). The proof goes down the value as the writer does, with one lemma for
  each place at which a cut can fall: inside an escape, inside a pair of surrogates, between the
  characters of a string, inside a number or a name, between the items of a list, inside a key
  or before its value.

  Proved:
  - `read_mono`, `readValue_dumps_only`: however little fuel there is, a written value is read
    as itself or not at all.
  - `cut_value`, `cut_items`, `cut_fields`: a part of a value, of its items and of its fields,
    each with the tail.
  - `readValue_cut`, `loads_cut`: nothing that begins with a part of an object is read, but the
    object itself.
-/

import CoreHeartbeat.Lib.PyJson

namespace PyJson

/-! ## More fuel -/

theorem map_mono {α β : Type} {f : α → β} {x x' : Option α} {b : β} (hx : ∀ a, x = some a → x' = some a)
    (h : x.map f = some b) : x'.map f = some b := by
  obtain ⟨a, ha, rfl⟩ := Option.map_eq_some_iff.mp h
  rw [hx a ha, Option.map_some]

/-- A reader that comes through does so with more fuel. -/
theorem read_mono (n : Nat) :
    (∀ s x, readValue n s = some x → readValue (n + 1) s = some x) ∧
      (∀ s x, readItems n s = some x → readItems (n + 1) s = some x) ∧
      ∀ s x, readFields n s = some x → readFields (n + 1) s = some x := by
  induction n with
  | zero => exact ⟨nofun, nofun, nofun⟩
  | succ n ih =>
    obtain ⟨hvalue, hitems, hfields⟩ := ih
    refine ⟨fun s x h => ?_, fun s x h => ?_, fun s x h => ?_⟩
    · rw [readValue] at h ⊢
      split at h
      · exact h
      · split at h
        · exact h
        · exact map_mono (hitems _) h
      · split at h
        · exact h
        · exact map_mono (hfields _) h
      · exact h
    · rw [readItems] at h ⊢
      obtain ⟨⟨v, r⟩, hv, h⟩ := Option.bind_eq_some_iff.mp h
      rw [hvalue _ _ hv]
      dsimp only [Option.bind_eq_bind, Option.bind_some] at h ⊢
      split at h
      · obtain ⟨⟨vs, r⟩, hvs, h⟩ := Option.bind_eq_some_iff.mp h
        rw [hitems _ _ hvs]
        exact h
      · exact h
      · cases h
    · rw [readFields] at h ⊢
      split at h
      · obtain ⟨⟨k, r⟩, hk, h⟩ := Option.bind_eq_some_iff.mp h
        dsimp only [Option.bind_eq_bind] at h ⊢
        rw [hk, Option.bind_some]
        dsimp only at h ⊢
        split at h
        · obtain ⟨⟨v, r⟩, hv, h⟩ := Option.bind_eq_some_iff.mp h
          rw [hvalue _ _ hv, Option.bind_some]
          dsimp only at h ⊢
          split at h
          · obtain ⟨⟨fs, r⟩, hfs, h⟩ := Option.bind_eq_some_iff.mp h
            rw [hfields _ _ hfs]
            exact h
          · exact h
          · cases h
        · cases h
      · cases h
theorem readValue_mono {n m : Nat} (h : n ≤ m) {s : List Char} {x : Value × List Char} (hx : readValue n s = some x) :
    readValue m s = some x := by
  induction h with
  | refl => exact hx
  | step _ ih => exact (read_mono _).1 s x ih

/-- However little fuel there is, a written value is read as itself or not at all. -/
theorem readValue_dumps_only {st : Style} {v : Value} (hv : floatsOk v = true) {n : Nat} {r : List Char} (hr : Ends r)
    {x : Value × List Char} (hx : readValue n (dumps st v ++ r) = some x) : x = (v, r) := by
  have hfull := readValue_dumps st v (max n (need v)) r hv (Nat.le_max_right _ _) hr
  rw [readValue_mono (Nat.le_max_left n (need v)) hx] at hfull
  exact Option.some.inj hfull

/-! ## Where reading stops -/

/-- Nothing, or what can follow no value. -/
def Halts (r : List Char) : Prop := ∀ c ∈ r.head?, isBlank c = false ∧ c ≠ ',' ∧ c ≠ ']' ∧ c ≠ '\x7d' ∧ c ≠ ':'

theorem Halts.skip {r : List Char} (h : Halts r) : skipBlanks r = r := by
  cases r with
  | nil => rfl
  | cons c r => exact skipBlanks_cons (h c rfl).1 r

theorem halts_nil : Halts [] := nofun

theorem halts_brace (r : List Char) : Halts ('\x7b' :: r) := by
  intro c hc
  cases hc
  decide

/-- What comes after a cut: nothing, or texts that each begin an object. -/
structure Tail (s : List Char) : Prop where
  head : ∀ c ∈ s.head?, c = '\x7b'
  /-- Where a value was due. -/
  value : ∀ n v r, readValue n s = some (v, r) → Halts r
  /-- Inside a string. -/
  body : ∀ n cs r, readBody n s = some (cs, r) → Halts r

theorem tail_nil : Tail [] := by
  refine ⟨nofun, fun n v r h => ?_, fun n cs r h => ?_⟩
  · cases n with
    | zero => cases h
    | succ n => cases h
  · cases n <;> cases h

variable {s : List Char}

theorem Tail.cases (h : Tail s) : s = [] ∨ ∃ r, s = '\x7b' :: r := by
  cases s with
  | nil => exact Or.inl rfl
  | cons c r => exact Or.inr ⟨r, by rw [h.head c rfl]⟩

theorem Tail.halts (h : Tail s) : Halts s := by
  rcases h.cases with rfl | ⟨r, rfl⟩
  · exact halts_nil
  · exact halts_brace r

theorem Tail.ends (h : Tail s) : Ends s := by
  rcases h.cases with rfl | ⟨r, rfl⟩
  · exact ends_nil
  · exact ends_cons rfl r

theorem Tail.skip (h : Tail s) : skipBlanks s = s := h.halts.skip

/-- A part of a list is a part of its front, or its front and a part of the rest. -/
theorem prefix_split {α : Type} {p a b : List α} (h : p <+: a ++ b) :
    p <+: a ∨ ∃ q, q ≠ [] ∧ p = a ++ q ∧ q <+: b := by
  rcases List.prefix_or_prefix_of_prefix h (List.prefix_append a b) with h' | ⟨q, rfl⟩
  · exact Or.inl h'
  · cases q with
    | nil => exact Or.inl ((List.append_nil a).symm ▸ List.prefix_rfl)
    | cons c q => exact Or.inr ⟨c :: q, List.cons_ne_nil _ _, rfl, (List.prefix_append_right_inj a).mp h⟩

/-! ## Strings that were cut -/

theorem readHex4_digits {l r : List Char} {n : Nat} (h : readHex4 l = some (n, r)) :
    ∃ a b c d, l = a :: b :: c :: d :: r ∧ ∀ x ∈ [a, b, c, d], hexVal x ≠ none := by
  unfold readHex4 at h
  split at h
  · rename_i a b c d r'
    obtain ⟨a', ha, h⟩ := Option.bind_eq_some_iff.mp h
    obtain ⟨b', hb, h⟩ := Option.bind_eq_some_iff.mp h
    obtain ⟨c', hc, h⟩ := Option.bind_eq_some_iff.mp h
    obtain ⟨d', hd, h⟩ := Option.bind_eq_some_iff.mp h
    cases h
    exact ⟨a, b, c, d, rfl, by simp [ha, hb, hc, hd]⟩
  · cases h

theorem readHex4_cut {hs : List Char} (hlen : hs.length < 4) (h : Tail s) : readHex4 (hs ++ s) = none := by
  cases hread : readHex4 (hs ++ s) with
  | none => rfl
  | some x =>
    obtain ⟨n, r⟩ := x
    obtain ⟨a, b, c, d, hl, hdigits⟩ := readHex4_digits hread
    rcases h.cases with rfl | ⟨t, rfl⟩
    · have := congrArg List.length hl
      simp only [List.append_nil, List.length_cons] at this
      omega
    · -- the brace is among the four
      have hbrace : '\x7b' ∈ [a, b, c, d] := by
        have htake : '\x7b' ∈ (hs ++ '\x7b' :: t).take 4 := by
          rw [List.take_append, List.take_of_length_le (by omega)]
          refine List.mem_append_right _ ?_
          rw [List.take_cons (by omega)]
          exact List.mem_cons_self
        rw [hl] at htake
        exact htake
      exact absurd rfl (hdigits _ hbrace)

/-- A part of the escape of a code unit. -/
theorem readUnicode_cut {n : Nat} {q : List Char} (hq : q <+: hex4 n) (hne : q ≠ hex4 n) (h : Tail s) :
    readUnicode (q ++ s) = none := by
  have hlen : q.length < 4 := by
    rcases Nat.lt_or_ge q.length 4 with hlt | hge
    · exact hlt
    · exact absurd (hq.eq_of_length (Nat.le_antisymm hq.length_le hge)) hne
  unfold readUnicode
  rw [readHex4_cut hlen h]
  rfl

/-- A high surrogate whose low one was cut. -/
theorem readUnicode_pair_cut {n m : Nat} (hn : 0xd800 ≤ n ∧ n < 0xdc00) {q : List Char} (hq : q <+: unicodeEscape m)
    (hne : q ≠ unicodeEscape m) (h : Tail s) : readUnicode (hex4 n ++ (q ++ s)) = none := by
  have hunit : ¬ (n < 0xd800 ∨ 0xe000 ≤ n) := by omega
  have hlow : ¬ 0xdc00 ≤ n := by omega
  unfold readUnicode
  rw [readHex4_hex4 (by omega)]
  simp only [Option.bind_eq_bind, Option.bind_some, if_neg hunit, if_neg hlow]
  split
  · rename_i r hr
    have hr : q ++ s = '\\' :: 'u' :: r := hr
    rcases List.prefix_cons_iff.mp hq with rfl | ⟨q, rfl, hu⟩
    · rcases h.cases with rfl | ⟨t, rfl⟩ <;> cases hr
    · rcases List.prefix_cons_iff.mp hu with rfl | ⟨q, rfl, hhex⟩
      · rcases h.cases with rfl | ⟨t, rfl⟩ <;> cases hr
      · have hlen : q.length < 4 := by
          rcases Nat.lt_or_ge q.length 4 with hlt | hge
          · exact hlt
          · have := hhex.eq_of_length (Nat.le_antisymm hhex.length_le hge)
            exact absurd (by rw [this]; rfl) hne
        obtain rfl : q ++ s = r := by
          simp only [List.cons_append, List.cons.injEq, true_and] at hr
          exact hr
        rw [readHex4_cut hlen h]
        rfl
  · rfl

theorem readBody_backslash {t : List Char} (h : readEscape t = none) (n : Nat) : readBody n ('\\' :: t) = none := by
  cases n with
  | zero => rfl
  | succ n => simp [readBody, h]

theorem readEscape_tail (h : Tail s) : readEscape s = none := by
  rcases h.cases with rfl | ⟨t, rfl⟩ <;> rfl

/-- A part of one character's escape, and then the tail. -/
theorem readBody_escape_cut {c : Char} {q : List Char} (hq : q <+: escape c) (hne : q ≠ escape c) (hnil : q ≠ [])
    (h : Tail s) (n : Nat) : readBody n (q ++ s) = none := by
  have hshort {x : Char} (hq : q <+: ['\\', x]) (hne : q ≠ ['\\', x]) : readBody n (q ++ s) = none := by
    obtain ⟨q₁, rfl, hq₁⟩ := (List.prefix_cons_iff.mp hq).resolve_left hnil
    rcases List.prefix_cons_iff.mp hq₁ with rfl | ⟨q₂, rfl, hq₂⟩
    · exact readBody_backslash (readEscape_tail h) n
    · rw [List.prefix_nil.mp hq₂] at hne
      exact absurd rfl hne
  have hunicode {m : Nat} (hq : q <+: unicodeEscape m) (hne : q ≠ unicodeEscape m) : readBody n (q ++ s) = none := by
    obtain ⟨q₁, rfl, hq₁⟩ := (List.prefix_cons_iff.mp hq).resolve_left hnil
    rcases List.prefix_cons_iff.mp hq₁ with rfl | ⟨q₂, rfl, hq₂⟩
    · exact readBody_backslash (readEscape_tail h) n
    · exact readBody_backslash (t := 'u' :: (q₂ ++ s)) (readUnicode_cut hq₂ (fun e => hne (by rw [e]; rfl)) h) n
  unfold escape at hq hne
  split_ifs at hq hne with hquote hslash hnl hcr htab hbs hff hplain hunit
  · exact hshort hq hne
  · exact hshort hq hne
  · exact hshort hq hne
  · exact hshort hq hne
  · exact hshort hq hne
  · exact hshort hq hne
  · exact hshort hq hne
  · obtain ⟨q₁, rfl, hq₁⟩ := (List.prefix_cons_iff.mp hq).resolve_left hnil
    rw [List.prefix_nil.mp hq₁] at hne
    exact absurd rfl hne
  · exact hunicode hq hne
  · have hvalid := toNat_valid c
    have hhigh : 0xd800 ≤ 0xd800 + (c.toNat - 0x10000) / 0x400 ∧ 0xd800 + (c.toNat - 0x10000) / 0x400 < 0xdc00 := by
      omega
    by_cases hwhole : q = unicodeEscape (0xd800 + (c.toNat - 0x10000) / 0x400)
    · subst hwhole
      have hcut := readUnicode_pair_cut (m := 0) hhigh List.nil_prefix (List.cons_ne_nil _ _).symm h
      exact readBody_backslash (t := 'u' :: (hex4 _ ++ ([] ++ s))) hcut n
    · rcases prefix_split hq with hfirst | ⟨q₁, -, rfl, hsecond⟩
      · exact hunicode hfirst hwhole
      · have hcut := readUnicode_pair_cut hhigh hsecond (fun e => hne (by rw [e])) h
        rw [List.append_assoc]
        exact readBody_backslash (t := 'u' :: (hex4 _ ++ (q₁ ++ s))) hcut n

/-- A part of a string after its opening quote, and then the tail. -/
theorem readBody_cut {cs q : List Char} (hq : q <+: cs.flatMap escape ++ ['"']) (h : Tail s) {n : Nat} {cs' r : List Char}
    (hread : readBody n (q ++ s) = some (cs', r)) : Halts r := by
  induction cs generalizing q n cs' with
  | nil =>
    rcases List.prefix_cons_iff.mp hq with rfl | ⟨q₁, rfl, hq₁⟩
    · exact h.body n cs' r hread
    · rw [List.prefix_nil.mp hq₁] at hread
      cases n with
      | zero => cases hread
      | succ n =>
        cases hread
        exact h.halts
  | cons c cs ih =>
    rw [List.flatMap_cons, List.append_assoc] at hq
    have hpast (q' : List Char) (hq' : q' <+: cs.flatMap escape ++ ['"'])
        (hread : readBody n (escape c ++ q' ++ s) = some (cs', r)) : Halts r := by
      rw [List.append_assoc] at hread
      cases n with
      | zero => cases hread
      | succ n =>
        rw [readBody_escape] at hread
        obtain ⟨⟨cs', r'⟩, hrest, heq⟩ := Option.map_eq_some_iff.mp hread
        cases heq
        exact ih hq' hrest
    by_cases hwhole : q = escape c
    · exact hpast [] List.nil_prefix (by rw [List.append_nil, ← hwhole]; exact hread)
    · rcases prefix_split hq with hcut | ⟨q', -, rfl, hq'⟩
      · by_cases hnil : q = []
        · subst hnil
          exact h.body n cs' r hread
        · rw [readBody_escape_cut hcut hwhole hnil h] at hread
          cases hread
      · exact hpast q' hq' hread

theorem readString_cut {x : String} {q : List Char} (hq : q <+: quoted x) (h : Tail s) {y : String} {r : List Char}
    (hread : readString (q ++ s) = some (y, r)) : Halts r := by
  obtain ⟨⟨cs, r'⟩, hbody, heq⟩ := Option.map_eq_some_iff.mp hread
  cases heq
  exact readBody_cut hq h hbody

/-! ## Values that were cut -/

theorem stop_item {r : List Char} (h : Halts r) {α : Type} (f g : List Char → Option α) :
    (match skipBlanks r with
      | ',' :: r => f r
      | ']' :: r => g r
      | _ => none) = none := by
  rw [h.skip]
  cases r with
  | nil => rfl
  | cons c r =>
    obtain ⟨-, hcomma, hclose, -, -⟩ := h c rfl
    split
    · next e => cases e; exact absurd rfl hcomma
    · next e => cases e; exact absurd rfl hclose
    · rfl

theorem stop_field {r : List Char} (h : Halts r) {α : Type} (f g : List Char → Option α) :
    (match skipBlanks r with
      | ',' :: r => f r
      | '\x7d' :: r => g r
      | _ => none) = none := by
  rw [h.skip]
  cases r with
  | nil => rfl
  | cons c r =>
    obtain ⟨-, hcomma, -, hclose, -⟩ := h c rfl
    split
    · next e => cases e; exact absurd rfl hcomma
    · next e => cases e; exact absurd rfl hclose
    · rfl

theorem stop_key {r : List Char} (h : Halts r) {α : Type} (f : List Char → Option α) :
    (match skipBlanks r with
      | ':' :: r => f r
      | _ => none) = none := by
  rw [h.skip]
  cases r with
  | nil => rfl
  | cons c r =>
    obtain ⟨-, -, -, -, hcolon⟩ := h c rfl
    split
    · next e => cases e; exact absurd rfl hcolon
    · rfl

theorem cut_token {t p : List Char} (ht : t.all isToken = true) (hp : p <+: t) (h : Tail s) {n : Nat} {x : Value}
    {r : List Char} (hread : readValue n (p ++ s) = some (x, r)) : Halts r := by
  by_cases hnil : p = []
  · subst hnil
    exact h.value n x r hread
  · cases n with
    | zero => cases hread
    | succ n =>
      have hp : p.all isToken = true := List.all_eq_true.mpr fun c hc => List.all_eq_true.mp ht c (hp.subset hc)
      rw [readValue_tokens hp hnil h.ends] at hread
      obtain ⟨y, -, heq⟩ := Option.map_eq_some_iff.mp hread
      cases heq
      exact h.halts

/-- What follows an opening bracket, when it is not the closing one. -/
theorem readValue_opened {n : Nat} {t : List Char} (hskip : skipBlanks t = t) (hclose : ∀ c ∈ t.head?, c ≠ ']') :
    readValue (n + 1) ('[' :: t) = (readItems n t).map fun (vs, r) => (.arr vs, r) := by
  rw [readValue, skipBlanks_cons rfl]
  simp only [hskip]
  split
  · exact absurd rfl (hclose ']' rfl)
  · rfl

theorem readValue_braced {n : Nat} {t : List Char} (hskip : skipBlanks t = t) (hclose : ∀ c ∈ t.head?, c ≠ '\x7d') :
    readValue (n + 1) ('\x7b' :: t) = (readFields n t).map fun (fs, r) => (.obj fs, r) := by
  rw [readValue, skipBlanks_cons rfl]
  simp only [hskip]
  split
  · exact absurd rfl (hclose '\x7d' rfl)
  · rfl

theorem readItems_tail (h : Tail s) (n : Nat) : readItems n s = none := by
  cases n with
  | zero => rfl
  | succ n =>
    cases hv : readValue n s with
    | none => rw [readItems, hv]; rfl
    | some x =>
      rw [readItems, hv]
      exact stop_item (h.value n x.1 x.2 hv) _ _

theorem readFields_tail (h : Tail s) (n : Nat) : readFields n s = none := by
  cases n with
  | zero => rfl
  | succ n =>
    rw [readFields, h.skip]
    rcases h.cases with rfl | ⟨t, rfl⟩ <;> rfl

theorem Tail.not_head (h : Tail s) {c : Char} (hc : c ≠ '\x7b') : ∀ d ∈ s.head?, d ≠ c := by
  intro d hd
  rw [h.head d hd]
  exact hc.symm

theorem skipBlanks_head {t : List Char} (h : ∀ c ∈ t.head?, isBlank c = false) : skipBlanks t = t := by
  cases t with
  | nil => rfl
  | cons c t => exact skipBlanks_cons (h c rfl) t

/-- How a part of what starts with `c`, and then the tail, starts. -/
theorem part_head {c : Char} {t q : List Char} (hq : q <+: c :: t) (h : Tail s) :
    ∀ d ∈ (q ++ s).head?, d = c ∨ d = '\x7b' := by
  rcases List.prefix_cons_iff.mp hq with rfl | ⟨q, rfl, -⟩
  · exact fun d hd => Or.inr (h.head d hd)
  · rintro d hd
    cases hd
    exact Or.inl rfl

theorem fields_assoc (k : String) (v : Value) (fs : List (String × Value)) :
    quote k ++ ':' :: Style.compact.afterColon ++ dumps .compact v ++ dumps.restFields .compact fs =
      quote k ++ ':' :: (dumps .compact v ++ dumps.restFields .compact fs) := by
  rw [List.append_assoc, List.append_assoc]
  rfl

mutual

/-- A part of a value and then the tail: if anything is read, what follows it can follow no
    value. -/
theorem cut_value (v : Value) (n : Nat) (hv : floatsOk v = true) {p : List Char} (hp : p <+: dumps .compact v) (h : Tail s)
    {x : Value} {r : List Char} (hread : readValue n (p ++ s) = some (x, r)) : Halts r := by
  by_cases hnil : p = []
  · subst hnil
    exact h.value n x r hread
  cases n with
  | zero => cases hread
  | succ n =>
    match v with
    | .null => exact cut_token (t := ['n', 'u', 'l', 'l']) rfl hp h hread
    | .bool true => exact cut_token (t := ['t', 'r', 'u', 'e']) rfl hp h hread
    | .bool false => exact cut_token (t := ['f', 'a', 'l', 's', 'e']) rfl hp h hread
    | .int i => exact cut_token (isToken_int i) hp h hread
    | .float t => exact cut_token (isToken_float hv) hp h hread
    | .str y =>
      obtain ⟨q, rfl, hq⟩ := (List.prefix_cons_iff.mp hp).resolve_left hnil
      rw [List.cons_append, readValue, skipBlanks_cons rfl] at hread
      obtain ⟨⟨y', r'⟩, hstring, heq⟩ := Option.map_eq_some_iff.mp hread
      cases heq
      exact readString_cut hq h hstring
    | .arr [] =>
      obtain ⟨q, rfl, hq⟩ := (List.prefix_cons_iff.mp hp).resolve_left hnil
      rcases List.prefix_cons_iff.mp hq with rfl | ⟨q', rfl, hq'⟩
      · rw [List.cons_append, List.nil_append, readValue_opened h.skip (h.not_head (by decide)), readItems_tail h] at hread
        cases hread
      · rw [List.prefix_nil.mp hq'] at hread
        cases hread
        exact h.halts
    | .arr (v :: vs) =>
      simp only [floatsOk, floatsOk.itemsOk, Bool.and_eq_true] at hv
      obtain ⟨q, rfl, hq⟩ := (List.prefix_cons_iff.mp hp).resolve_left hnil
      obtain ⟨c, t, hc, hblank, hclose⟩ := dumps_head .compact hv.1
      have hpart : q <+: c :: t ++ dumps.restItems .compact vs := hc ▸ hq
      have hhead := part_head (t := t ++ dumps.restItems .compact vs) hpart h
      have hskip : skipBlanks (q ++ s) = q ++ s := skipBlanks_head fun d hd => by
        rcases hhead d hd with rfl | rfl
        · exact hblank
        · rfl
      have hopen : ∀ d ∈ (q ++ s).head?, d ≠ ']' := fun d hd => by
        rcases hhead d hd with rfl | rfl
        · exact hclose
        · decide
      rw [List.cons_append, readValue_opened hskip hopen] at hread
      obtain ⟨⟨xs, r'⟩, hitems, heq⟩ := Option.map_eq_some_iff.mp hread
      cases heq
      rw [(cut_items v vs n hv.1 hv.2 hq h hitems).2]
      exact h.halts
    | .obj [] =>
      obtain ⟨q, rfl, hq⟩ := (List.prefix_cons_iff.mp hp).resolve_left hnil
      rcases List.prefix_cons_iff.mp hq with rfl | ⟨q', rfl, hq'⟩
      · rw [List.cons_append, List.nil_append, readValue_braced h.skip (h.not_head (by decide)), readFields_tail h] at hread
        cases hread
      · rw [List.prefix_nil.mp hq'] at hread
        cases hread
        exact h.halts
    | .obj ((k, v) :: fs) =>
      simp only [floatsOk, floatsOk.fieldsOk, Bool.and_eq_true] at hv
      obtain ⟨q, rfl, hq⟩ := (List.prefix_cons_iff.mp hp).resolve_left hnil
      have hq : q <+: quote k ++ ':' :: (dumps .compact v ++ dumps.restFields .compact fs) := by
        rw [← fields_assoc]
        exact hq
      have hhead := part_head (c := '"') hq h
      have hskip : skipBlanks (q ++ s) = q ++ s := skipBlanks_head fun d hd => by
        rcases hhead d hd with rfl | rfl <;> rfl
      have hopen : ∀ d ∈ (q ++ s).head?, d ≠ '\x7d' := fun d hd => by
        rcases hhead d hd with rfl | rfl <;> decide
      rw [List.cons_append, readValue_braced hskip hopen] at hread
      obtain ⟨⟨xs, r'⟩, hfields, heq⟩ := Option.map_eq_some_iff.mp hread
      cases heq
      rw [(cut_fields k v fs n hv.1 hv.2 hq h hfields).2]
      exact h.halts
termination_by n

/-- A part of the items and then the tail is read only where it is all of them. -/
theorem cut_items (v : Value) (vs : List Value) (n : Nat) (hv : floatsOk v = true) (hvs : floatsOk.itemsOk vs = true)
    {q : List Char} (hq : q <+: dumps .compact v ++ dumps.restItems .compact vs) (h : Tail s) {xs : List Value}
    {r : List Char} (hread : readItems n (q ++ s) = some (xs, r)) :
    q = dumps .compact v ++ dumps.restItems .compact vs ∧ r = s := by
  cases n with
  | zero => cases hread
  | succ n =>
    rw [readItems] at hread
    obtain ⟨⟨y, r'⟩, hfirst, hrest⟩ := Option.bind_eq_some_iff.mp hread
    dsimp only at hrest
    rcases prefix_split hq with hcut | ⟨q₁, hne, rfl, hq₁⟩
    · have hstop := hrest.symm.trans (stop_item (cut_value v n hv hcut h hfirst) _ _)
      cases hstop
    · rw [List.append_assoc] at hfirst
      match vs with
      | [] =>
        obtain ⟨q', rfl, hq'⟩ := (List.prefix_cons_iff.mp hq₁).resolve_left hne
        obtain rfl := List.prefix_nil.mp hq'
        cases readValue_dumps_only hv (ends_cons rfl _) hfirst
        cases hrest
        exact ⟨rfl, rfl⟩
      | w :: vs =>
        simp only [floatsOk.itemsOk, Bool.and_eq_true] at hvs
        obtain ⟨q', rfl, hq'⟩ := (List.prefix_cons_iff.mp hq₁).resolve_left hne
        cases readValue_dumps_only hv (ends_cons rfl _) hfirst
        rw [skipBlanks_cons rfl] at hrest
        obtain ⟨⟨ys, r''⟩, hmore, heq⟩ := Option.bind_eq_some_iff.mp hrest
        cases heq
        obtain ⟨rfl, rfl⟩ := cut_items w vs n hvs.1 hvs.2 hq' h hmore
        exact ⟨rfl, rfl⟩
termination_by n

/-- The same of the fields. -/
theorem cut_fields (k : String) (v : Value) (fs : List (String × Value)) (n : Nat) (hv : floatsOk v = true)
    (hfs : floatsOk.fieldsOk fs = true) {q : List Char}
    (hq : q <+: quote k ++ ':' :: (dumps .compact v ++ dumps.restFields .compact fs)) (h : Tail s)
    {xs : List (String × Value)} {r : List Char} (hread : readFields n (q ++ s) = some (xs, r)) :
    q = quote k ++ ':' :: (dumps .compact v ++ dumps.restFields .compact fs) ∧ r = s := by
  cases n with
  | zero => cases hread
  | succ n =>
    rcases List.prefix_cons_iff.mp hq with rfl | ⟨q₁, rfl, hq₁⟩
    · rw [List.nil_append, readFields_tail h] at hread
      cases hread
    · rw [List.cons_append, readFields, skipBlanks_cons rfl] at hread
      obtain ⟨⟨k', r₁⟩, hkey, hread⟩ := Option.bind_eq_some_iff.mp hread
      dsimp only at hread
      rcases prefix_split hq₁ with hcut | ⟨q₂, hne, rfl, hq₂⟩
      · have hstop := hread.symm.trans (stop_key (readString_cut hcut h hkey) _)
        cases hstop
      · obtain ⟨q₃, rfl, hq₃⟩ := (List.prefix_cons_iff.mp hq₂).resolve_left hne
        rw [List.append_assoc, readString_quoted] at hkey
        cases hkey
        rw [List.cons_append, skipBlanks_cons rfl] at hread
        obtain ⟨⟨y, r₂⟩, hfirst, hread⟩ := Option.bind_eq_some_iff.mp hread
        dsimp only at hread
        rcases prefix_split hq₃ with hcut | ⟨q₄, hne', rfl, hq₄⟩
        · have hstop := hread.symm.trans (stop_field (cut_value v n hv hcut h hfirst) _ _)
          cases hstop
        · rw [List.append_assoc] at hfirst
          match fs with
          | [] =>
            obtain ⟨q₅, rfl, hq₅⟩ := (List.prefix_cons_iff.mp hq₄).resolve_left hne'
            obtain rfl := List.prefix_nil.mp hq₅
            cases readValue_dumps_only hv (ends_cons rfl _) hfirst
            cases hread
            exact ⟨rfl, rfl⟩
          | (k₂, w) :: fs =>
            simp only [floatsOk.fieldsOk, Bool.and_eq_true] at hfs
            obtain ⟨q₅, rfl, hq₅⟩ := (List.prefix_cons_iff.mp hq₄).resolve_left hne'
            cases readValue_dumps_only hv (ends_cons rfl _) hfirst
            rw [skipBlanks_cons rfl] at hread
            obtain ⟨⟨ys, r₃⟩, hmore, heq⟩ := Option.bind_eq_some_iff.mp hread
            cases heq
            obtain ⟨rfl, rfl⟩ := cut_fields k₂ w fs n hfs.1 hfs.2 (q := q₅) (fields_assoc k₂ w fs ▸ hq₅) h hmore
            refine ⟨?_, rfl⟩
            rw [← fields_assoc]
            rfl
termination_by n

end

/-! ## Objects that were cut -/

/-- An object whose first key begins with nothing that can follow a string. -/
def Sealed (v : Value) : Prop := ∃ k w fs, v = .obj ((k, w) :: fs) ∧ Halts (quoted k)

theorem Sealed.brace {v : Value} (h : Sealed v) : ∃ k w fs, Halts (quoted k) ∧ v = .obj ((k, w) :: fs) ∧
    dumps .compact v = '\x7b' :: '"' :: (quoted k ++ ':' :: (dumps .compact w ++ dumps.restFields .compact fs)) := by
  obtain ⟨k, w, fs, rfl, hk⟩ := h
  refine ⟨k, w, fs, hk, rfl, ?_⟩
  show '\x7b' :: (quote k ++ ':' :: Style.compact.afterColon ++ dumps .compact w ++ dumps.restFields .compact fs) = _
  rw [fields_assoc]
  rfl

/-- Nothing that begins with a part of an object is read, but the object itself. -/
theorem readValue_cut {v : Value} (hsealed : Sealed v) (hv : floatsOk v = true) {p : List Char} (hp : p <+: dumps .compact v)
    (hne : p ≠ []) (h : Tail s) {n : Nat} {x : Value} {r : List Char} (hread : readValue n (p ++ s) = some (x, r)) :
    p = dumps .compact v ∧ x = v ∧ r = s := by
  obtain ⟨k, w, fs, -, rfl, htext⟩ := hsealed.brace
  simp only [floatsOk, floatsOk.fieldsOk, Bool.and_eq_true] at hv
  have hwhole : p = dumps .compact (.obj ((k, w) :: fs)) := by
    rw [htext] at hp ⊢
    obtain ⟨q, rfl, hq⟩ := (List.prefix_cons_iff.mp hp).resolve_left hne
    cases n with
    | zero => cases hread
    | succ n =>
      have hhead := part_head (c := '"') hq h
      have hskip : skipBlanks (q ++ s) = q ++ s := skipBlanks_head fun d hd => by
        rcases hhead d hd with rfl | rfl <;> rfl
      have hopen : ∀ d ∈ (q ++ s).head?, d ≠ '\x7d' := fun d hd => by
        rcases hhead d hd with rfl | rfl <;> decide
      rw [List.cons_append, readValue_braced hskip hopen] at hread
      obtain ⟨⟨xs, r'⟩, hfields, -⟩ := Option.map_eq_some_iff.mp hread
      rw [(cut_fields k w fs n hv.1 hv.2 hq h hfields).1]
      rfl
  subst hwhole
  cases readValue_dumps_only (v := .obj ((k, w) :: fs)) (by simp [floatsOk, floatsOk.fieldsOk, hv]) h.ends hread
  exact ⟨rfl, rfl, rfl⟩

theorem loads_cut {v : Value} (hsealed : Sealed v) (hv : floatsOk v = true) {p : List Char} (hp : p <+: dumps .compact v)
    (hne : p ≠ []) (h : Tail s) {x : Value} (hx : loads (p ++ s) = some x) : x = v ∧ s = [] := by
  unfold loads at hx
  split at hx
  · rename_i y r hread
    obtain ⟨-, rfl, rfl⟩ := readValue_cut hsealed hv hp hne h hread
    rw [h.skip] at hx
    split at hx
    · rename_i hs
      cases hx
      exact ⟨rfl, hs⟩
    · cases hx
  · cases hx

theorem quoted_ne_nil (k : String) : quoted k ≠ [] := by simp [quoted]

theorem halts_part {a t q : List Char} (ha : Halts a) (hne : a ≠ []) (hq : q <+: a ++ t) (h : Tail s) : Halts (q ++ s) := by
  obtain ⟨c, a, rfl⟩ := List.exists_cons_of_ne_nil hne
  rcases List.prefix_cons_iff.mp hq with rfl | ⟨q, rfl, -⟩
  · exact h.halts
  · intro d hd
    cases hd
    exact ha c rfl

/-- A part of an object and then a tail is a tail. -/
theorem tail_append {v : Value} (hsealed : Sealed v) (hv : floatsOk v = true) {p : List Char} (hp : p <+: dumps .compact v)
    (h : Tail s) : Tail (p ++ s) := by
  by_cases hne : p = []
  · subst hne
    exact h
  refine ⟨?_, fun n x r hread => ?_, fun n cs r hread => ?_⟩
  · obtain ⟨k, w, fs, -, -, htext⟩ := hsealed.brace
    rw [htext] at hp
    obtain ⟨q, rfl, -⟩ := (List.prefix_cons_iff.mp hp).resolve_left hne
    exact fun c hc => by cases hc; rfl
  · obtain ⟨-, -, rfl⟩ := readValue_cut hsealed hv hp hne h hread
    exact h.halts
  · obtain ⟨k, w, fs, hk, -, htext⟩ := hsealed.brace
    rw [htext] at hp
    obtain ⟨q, rfl, hq⟩ := (List.prefix_cons_iff.mp hp).resolve_left hne
    cases n with
    | zero => cases hread
    | succ n =>
      obtain ⟨⟨cs', r'⟩, hbody, heq⟩ := Option.bind_eq_some_iff.mp hread
      cases heq
      rcases List.prefix_cons_iff.mp hq with rfl | ⟨q', rfl, hq'⟩
      · exact h.body n cs' r hbody
      · cases n with
        | zero => cases hbody
        | succ n =>
          cases hbody
          exact halts_part hk (quoted_ne_nil k) hq' h

end PyJson
