/-
  CoreHeartbeat.Lib.PyUrl — `urllib.parse`: `urlparse`, `urlunparse`, and the host and port of a
  parse.

  A URL is a list of characters. NFKC, `str.lower` and the syntax of IPv6 addresses are
  parameters (`Tables`); a parse that raises is `none`. The parse goes as the library goes: what
  is stripped and removed first, the scheme up to a colon, the network location after two
  slashes with its checks (brackets, NFKC), the fragment, the query, and the parameters at the
  first semicolon of the last segment. A host is what stands behind the last `@` and before a
  port, in lower case but for the zone of an IPv6 address.

  A program that checks a parse and then requests the text that `urlunparse` makes of it counts
  on a second parse, in the client, naming the same host. That is not so of every tuple of
  parts, but of the parts of a parse.

  Proved:
  - `urlparse_wellFormed`: what the parts of a parse do not contain (`WellFormed`).
  - `urlparse_urlunparse`: a parse with a scheme and a network location, put together again and
    parsed, is the same parse; so it names the same host.
-/

import CoreHeartbeat.Lib.PyText

namespace PyUrl

structure Tables where
  nfkc : List Char → List Char
  lower : List Char → List Char
  /-- `ipaddress.ip_address` makes an IPv6 address of it. -/
  isIPv6 : List Char → Bool

/-! ## Cutting a text -/

/-- What stands before the first `sep`: everything without one. -/
def before (sep : Char) (t : List Char) : List Char := t.takeWhile (· ≠ sep)

/-- What stands after the first `sep`: nothing without one. -/
def after (sep : Char) (t : List Char) : List Char := (t.dropWhile (· ≠ sep)).tail

/-- What stands after the last `sep`: everything without one. -/
def afterLast (sep : Char) (t : List Char) : List Char := t.rtakeWhile (· ≠ sep)

variable {sep : Char} {x : List Char}

theorem before_append (h : sep ∉ x) (y : List Char) : before sep (x ++ sep :: y) = x := by
  unfold before
  rw [List.takeWhile_append_of_pos fun c hc => by simpa using fun heq : c = sep => h (heq ▸ hc)]
  simp

theorem after_append (h : sep ∉ x) (y : List Char) : after sep (x ++ sep :: y) = y := by
  unfold after
  rw [List.dropWhile_append_of_pos fun c hc => by simpa using fun heq : c = sep => h (heq ▸ hc)]
  simp

theorem before_self (h : sep ∉ x) : before sep x = x :=
  List.takeWhile_eq_self_iff.mpr fun c hc => by simpa using fun heq : c = sep => h (heq ▸ hc)

theorem after_self (h : sep ∉ x) : after sep x = [] := by
  unfold after
  rw [List.dropWhile_eq_nil_iff.mpr fun c hc => by simpa using fun heq : c = sep => h (heq ▸ hc)]
  rfl

theorem sep_notMem_before (sep : Char) (t : List Char) : sep ∉ before sep t := fun h => by
  simpa using List.mem_takeWhile_imp h

theorem before_subset (sep : Char) (t : List Char) : before sep t ⊆ t := (List.takeWhile_prefix _).subset

theorem after_subset (sep : Char) (t : List Char) : after sep t ⊆ t :=
  fun _ h => (List.dropWhile_suffix _).subset (List.mem_of_mem_tail h)

/-! ## Parsing -/

structure ParseResult where
  scheme : List Char
  netloc : List Char
  path : List Char
  params : List Char
  query : List Char
  fragment : List Char
  deriving DecidableEq, Repr

/-- `_WHATWG_C0_CONTROL_OR_SPACE`. -/
def isC0OrSpace (c : Char) : Bool := c.toNat ≤ 0x20

/-- `_UNSAFE_URL_BYTES_TO_REMOVE`. -/
def isUnsafe (c : Char) : Bool := c == '\t' || c == '\r' || c == '\n'

def isSchemeChar (c : Char) : Bool := c.isAlphanum || c == '+' || c == '-' || c == '.'

def isDelim (c : Char) : Bool := c == '/' || c == '?' || c == '#'

def usesParams : List (List Char) :=
  ["", "ftp", "hdl", "prospero", "http", "imap", "https", "shttp", "rtsp", "rtsps", "rtspu", "sip", "sips", "mms",
    "sftp", "tel"].map String.toList

def usesNetloc : List (List Char) :=
  ["", "ftp", "http", "gopher", "nntp", "telnet", "imap", "wais", "file", "mms", "https", "shttp", "snews", "prospero",
    "rtsp", "rtsps", "rtspu", "rsync", "svn", "svn+ssh", "sftp", "nfs", "git", "git+ssh", "ws", "wss",
    "itms-services"].map String.toList

def isScheme (s : List Char) : Bool := s.head?.any Char.isAlpha && s.all isSchemeChar

def splitScheme (url : List Char) : List Char × List Char :=
  if ':' ∈ url ∧ isScheme (before ':' url) = true then ((before ':' url).map Char.toLower, after ':' url)
  else ([], url)

/-- `_splitnetloc`, where there is a network location. -/
def splitNetloc (url : List Char) : List Char × List Char :=
  match url with
  | '/' :: '/' :: rest => (rest.takeWhile (!isDelim ·), rest.dropWhile (!isDelim ·))
  | _ => ([], url)

def isHex (c : Char) : Bool := c.isDigit || ('a' ≤ c && c ≤ 'f') || ('A' ≤ c && c ≤ 'F')

/-- `v[a-fA-F0-9]+\..+`, the whole text. -/
def isIPvFuture (h : List Char) : Bool :=
  match h with
  | 'v' :: rest =>
    !(rest.takeWhile isHex).isEmpty &&
      match rest.dropWhile isHex with
      | '.' :: more => !more.isEmpty && !more.contains '\n'
      | _ => false
  | _ => false

def checkBracketedHost (t : Tables) (h : List Char) : Bool :=
  if h.head? = some 'v' then isIPvFuture h else t.isIPv6 h

def checkBracketedNetloc (t : Tables) (netloc : List Char) : Bool :=
  let hostinfo := afterLast '@' netloc
  if '[' ∈ hostinfo then
    let bracketed := after '[' hostinfo
    let port := after ']' bracketed
    (before '[' hostinfo).isEmpty && (port.isEmpty || port.head? == some ':') &&
      checkBracketedHost t (before ']' bracketed)
  else checkBracketedHost t (before ':' hostinfo)

def checkNetloc (t : Tables) (netloc : List Char) : Bool :=
  let n := netloc.filter fun c => !(c == '@' || c == ':' || c == '#' || c == '?')
  netloc.all (fun c => c.toNat < 128) || n == t.nfkc n ||
    !(t.nfkc n).any fun c => isDelim c || c == '@' || c == ':'

def netlocPasses (t : Tables) (netloc : List Char) : Bool :=
  (netloc.contains '[' == netloc.contains ']') && (!netloc.contains '[' || checkBracketedNetloc t netloc) &&
    checkNetloc t netloc

/-- `_splitparams`: at the first semicolon of the last segment. -/
def splitParams (path : List Char) : List Char × List Char :=
  let segment := afterLast '/' path
  if ';' ∈ segment then (path.rdropWhile (· ≠ '/') ++ before ';' segment, after ';' segment) else (path, [])

def pathParams (scheme path : List Char) : List Char × List Char :=
  if scheme ∈ usesParams ∧ ';' ∈ path then splitParams path else (path, [])

def urlparse (t : Tables) (url : List Char) : Option ParseResult :=
  let url := (url.dropWhile isC0OrSpace).filter (!isUnsafe ·)
  let (scheme, rest) := splitScheme url
  let (netloc, rest) := splitNetloc rest
  if netlocPasses t netloc then
    let whole := before '?' (before '#' rest)
    some {
      scheme, netloc
      path := (pathParams scheme whole).1
      params := (pathParams scheme whole).2
      query := after '?' (before '#' rest)
      fragment := after '#' rest }
  else none

namespace ParseResult

variable (p : ParseResult)

def whole : List Char := if p.params = [] then p.path else p.path ++ ';' :: p.params

def urlunparse : List Char :=
  let path := p.whole
  let url :=
    if p.netloc ≠ [] then '/' :: '/' :: (p.netloc ++ if path = [] ∨ path.head? = some '/' then path else '/' :: path)
    else if path.take 2 = ['/', '/'] then '/' :: '/' :: path
    else if p.scheme ≠ [] ∧ p.scheme ∈ usesNetloc ∧ (path = [] ∨ path.head? = some '/') then '/' :: '/' :: path
    else path
  let url := if p.scheme = [] then url else p.scheme ++ ':' :: url
  let url := if p.query = [] then url else url ++ '?' :: p.query
  if p.fragment = [] then url else url ++ '#' :: p.fragment

def hostinfo : List Char × List Char :=
  let info := afterLast '@' p.netloc
  if '[' ∈ info then
    let bracketed := after '[' info
    (before ']' bracketed, after ':' (after ']' bracketed))
  else (before ':' info, after ':' info)

/-- `hostname`: the zone of an IPv6 address keeps its case. -/
def hostname (t : Tables) : Option (List Char) :=
  let h := p.hostinfo.1
  if h = [] then none else some (t.lower (before '%' h) ++ h.dropWhile (· ≠ '%'))

/-- `port`; `none` when it raises. -/
def port : Option (Option Nat) :=
  let digits := p.hostinfo.2
  if digits = [] then some none
  else if digits.all Char.isDigit ∧ digits.length ≤ PyText.Unicode.maxStrDigits then
    let n := digits.foldl (fun n c => 10 * n + (c.toNat - 48)) 0
    if n ≤ 65535 then some (some n) else none
  else none

end ParseResult

/-! ## Parameters -/

theorem afterLast_dir (w : List Char) {z : List Char} (hz : '/' ∉ z) :
    afterLast '/' (w.rdropWhile (· ≠ '/') ++ z) = z := by
  have hall : ∀ c ∈ z.reverse, decide (c ≠ '/') = true := fun c hc => by
    simpa using fun heq : c = '/' => hz (heq ▸ List.mem_reverse.mp hc)
  have hend : (w.reverse.dropWhile (· ≠ '/')).takeWhile (· ≠ '/') = [] :=
    List.takeWhile_eq_nil_iff.mpr fun hl => List.dropWhile_get_zero_not _ w.reverse hl
  unfold afterLast List.rtakeWhile List.rdropWhile
  rw [List.reverse_append, List.takeWhile_append_of_pos hall, List.reverse_reverse, hend, List.append_nil,
    List.reverse_reverse]

/-- The path and the parameters together: what they were cut from, or all of it but a last
    semicolon. -/
def joined (x : List Char × List Char) : List Char := if x.2 = [] then x.1 else x.1 ++ ';' :: x.2

theorem segment_split {segment : List Char} (h : ';' ∈ segment) :
    before ';' segment ++ ';' :: after ';' segment = segment := by
  unfold before after
  have hdrop : segment.dropWhile (· ≠ ';') = ';' :: (segment.dropWhile (· ≠ ';')).tail := by
    have hne : segment.dropWhile (· ≠ ';') ≠ [] := fun hnil => by
      simpa using List.dropWhile_eq_nil_iff.mp hnil ';' h
    have hhead : (segment.dropWhile (· ≠ ';')).head hne = ';' := by
      simpa using List.head_dropWhile_not (· ≠ ';') hne
    conv_lhs => rw [← List.cons_head_tail hne, hhead]
  rw [← hdrop, List.takeWhile_append_dropWhile]

theorem splitParams_cases (w : List Char) :
    splitParams w = (w, []) ∨
      ∃ dir x y, w = dir ++ (x ++ ';' :: y) ∧ splitParams w = (dir ++ x, y) ∧ splitParams (dir ++ x) = (dir ++ x, []) := by
  by_cases h : ';' ∈ afterLast '/' w
  · right
    have hsplit := segment_split h
    have hslash : '/' ∉ before ';' (afterLast '/' w) := fun hmem => by
      simpa using List.mem_rtakeWhile_imp (before_subset _ _ hmem)
    refine ⟨w.rdropWhile (· ≠ '/'), before ';' (afterLast '/' w), after ';' (afterLast '/' w), ?_, ?_, ?_⟩
    · rw [hsplit]
      exact (List.rdropWhile_append_rtakeWhile).symm
    · simp only [splitParams, h, if_true]
    · simp only [splitParams, afterLast_dir w hslash, sep_notMem_before, if_false]
  · left
    simp only [splitParams, h, if_false]

theorem pathParams_cases (scheme w : List Char) :
    pathParams scheme w = (w, []) ∨
      ∃ x y, w = x ++ ';' :: y ∧ pathParams scheme w = (x, y) ∧ pathParams scheme x = (x, []) := by
  unfold pathParams
  by_cases h : scheme ∈ usesParams ∧ ';' ∈ w
  · rw [if_pos h]
    rcases splitParams_cases w with hnone | ⟨dir, x, y, hw, hsplit, hrest⟩
    · exact Or.inl hnone
    · refine Or.inr ⟨dir ++ x, y, by rw [hw, List.append_assoc], hsplit, ?_⟩
      split
      · exact hrest
      · rfl
  · rw [if_neg h]
    exact Or.inl rfl

theorem joined_prefix (scheme w : List Char) : joined (pathParams scheme w) <+: w := by
  unfold joined
  rcases pathParams_cases scheme w with h | ⟨x, y, hw, h, -⟩
  · simp only [h, if_true]
    exact List.prefix_refl w
  · rw [h]
    split
    · exact ⟨';' :: y, hw.symm⟩
    · exact ⟨[], by rw [hw, List.append_nil]⟩

theorem pathParams_joined (scheme w : List Char) :
    pathParams scheme (joined (pathParams scheme w)) = pathParams scheme w := by
  unfold joined
  rcases pathParams_cases scheme w with h | ⟨x, y, hw, h, hx⟩
  · rw [h, if_pos rfl, h]
  · rw [h]
    split
    · rename_i hy
      rw [hx, show y = [] from hy]
    · rw [← hw, h]

/-! ## What a parse has -/

theorem toLower_toLower (c : Char) : c.toLower.toLower = c.toLower := by
  have hkept : ∀ d : Char, ¬ (d.val ≥ 'A'.val ∧ d.val ≤ 'Z'.val) → d.toLower = d := fun d hd => by
    unfold Char.toLower
    rw [dif_neg hd]
  by_cases hc : c.val ≥ 'A'.val ∧ c.val ≤ 'Z'.val
  · apply hkept
    intro hd
    unfold Char.toLower at hd
    rw [dif_pos hc] at hd
    obtain ⟨hfrom, hto⟩ := hc
    obtain ⟨-, hto'⟩ := hd
    simp only [ge_iff_le, UInt32.le_iff_toNat_le, UInt32.toNat_add] at *
    change 65 ≤ c.toNat at hfrom
    change c.toNat ≤ 90 at hto
    change (c.toNat + 32) % 4294967296 ≤ 90 at hto'
    omega
  · rw [hkept c hc, hkept c hc]

theorem splitScheme_lowered (url : List Char) : (splitScheme url).1.map Char.toLower = (splitScheme url).1 := by
  unfold splitScheme
  split
  · rw [List.map_map]
    exact List.map_congr_left fun c _ => toLower_toLower c
  · rfl

theorem splitScheme_subset (url : List Char) : (splitScheme url).2 ⊆ url := by
  unfold splitScheme
  split
  · exact after_subset ':' url
  · exact List.Subset.refl _

theorem splitNetloc_subset (url : List Char) : (splitNetloc url).1 ⊆ url ∧ (splitNetloc url).2 ⊆ url := by
  unfold splitNetloc
  split
  · rename_i rest
    have hrest : rest ⊆ '/' :: '/' :: rest := fun c hc => List.mem_cons_of_mem _ (List.mem_cons_of_mem _ hc)
    exact ⟨List.Subset.trans (List.takeWhile_prefix _).subset hrest, List.Subset.trans (List.dropWhile_suffix _).subset hrest⟩
  · exact ⟨List.nil_subset _, List.Subset.refl _⟩

/-- A network location has no delimiter, and ends at one. -/
theorem splitNetloc_spec (url : List Char) :
    (∀ c ∈ (splitNetloc url).1, isDelim c = false) ∧
      ((splitNetloc url).1 ≠ [] → ∀ c ∈ (splitNetloc url).2.head?, isDelim c = true) := by
  unfold splitNetloc
  split
  · rename_i rest
    refine ⟨fun c hc => by simpa using List.mem_takeWhile_imp hc, fun _ c hc => ?_⟩
    have hhead := List.head?_dropWhile_not (!isDelim ·) rest
    rw [Option.mem_def.mp hc] at hhead
    simpa using hhead
  · exact ⟨nofun, fun h => absurd rfl h⟩

structure WellFormed (t : Tables) (p : ParseResult) : Prop where
  lowered : p.scheme.map Char.toLower = p.scheme
  clean : ∀ c ∈ p.netloc ++ (p.whole ++ (p.query ++ p.fragment)), isUnsafe c = false
  open_netloc : ∀ c ∈ p.netloc, isDelim c = false
  passes : netlocPasses t p.netloc = true
  rooted : p.netloc ≠ [] → p.whole = [] ∨ p.whole.head? = some '/'
  whole_hash : '#' ∉ p.whole
  whole_mark : '?' ∉ p.whole
  query_hash : '#' ∉ p.query
  split : pathParams p.scheme p.whole = (p.path, p.params)

/-- A path starts what ends a network location, so it starts with the slash. -/
theorem head_of_prefix {path rest : List Char} (hpath : path <+: rest) (hmark : '?' ∉ path) (hhash : '#' ∉ path)
    (hends : ∀ c ∈ rest.head?, isDelim c = true) :
    path = [] ∨ path.head? = some '/' := by
  obtain ⟨more, rfl⟩ := hpath
  cases path with
  | nil => exact Or.inl rfl
  | cons c cs =>
    have hdelim := hends c rfl
    have hcmark : c ≠ '?' := fun heq => hmark (heq ▸ List.mem_cons_self)
    have hchash : c ≠ '#' := fun heq => hhash (heq ▸ List.mem_cons_self)
    have hslash : c = '/' := by simpa [isDelim, hcmark, hchash] using hdelim
    exact Or.inr (congrArg some hslash)

theorem urlparse_wellFormed {t : Tables} {url : List Char} {p : ParseResult} (h : urlparse t url = some p) :
    WellFormed t p := by
  unfold urlparse at h
  simp only at h
  generalize hclean : (url.dropWhile isC0OrSpace).filter (!isUnsafe ·) = text at h
  have htext : ∀ c ∈ text, isUnsafe c = false := fun c hc => by
    rw [← hclean] at hc
    simpa using (List.mem_filter.mp hc).2
  split at h
  · rename_i hpasses
    generalize hrest : (splitNetloc (splitScheme text).2).2 = rest at h
    obtain ⟨hopen, hends⟩ := splitNetloc_spec (splitScheme text).2
    obtain ⟨hloc, hsub⟩ := splitNetloc_subset (splitScheme text).2
    rw [hrest] at hends hsub
    have hrestText : rest ⊆ text := List.Subset.trans hsub (splitScheme_subset text)
    have hjoined := joined_prefix (splitScheme text).1 (before '?' (before '#' rest))
    have hwhole : before '?' (before '#' rest) ⊆ before '#' rest := before_subset _ _
    obtain rfl := Option.some.inj h
    refine ⟨splitScheme_lowered text, fun c hc => htext c ?_, hopen, hpasses, fun hne => ?_, fun hmem => ?_, fun hmem => ?_, fun hmem => ?_, ?_⟩
    · rcases List.mem_append.mp hc with hc | hc
      · exact splitScheme_subset text (hloc hc)
      · rcases List.mem_append.mp hc with hc | hc
        · exact hrestText (before_subset _ _ (hwhole (hjoined.subset hc)))
        · rcases List.mem_append.mp hc with hc | hc
          · exact hrestText (before_subset _ _ (after_subset _ _ hc))
          · exact hrestText (after_subset _ _ hc)
    · refine head_of_prefix (hjoined.trans ((List.takeWhile_prefix _).trans (List.takeWhile_prefix _))) ?_ ?_ (hends hne)
      · exact fun hmem => sep_notMem_before '?' _ (hjoined.subset hmem)
      · exact fun hmem => sep_notMem_before '#' rest (hwhole (hjoined.subset hmem))
    · exact sep_notMem_before '#' rest (hwhole (hjoined.subset hmem))
    · exact sep_notMem_before '?' _ (hjoined.subset hmem)
    · exact sep_notMem_before '#' rest (after_subset _ _ hmem)
    · exact pathParams_joined _ _
  · cases h

/-! ## There and back -/

theorem toNat_of_isSchemeChar {c : Char} (h : isSchemeChar c = true) : 33 ≤ c.toNat ∧ c.toNat ≠ 58 := by
  unfold isSchemeChar Char.isAlphanum Char.isAlpha Char.isUpper Char.isLower at h
  simp only [Bool.or_eq_true, Bool.and_eq_true, beq_iff_eq, decide_eq_true_eq, UInt32.le_iff_toNat_le, ge_iff_le,
    Char.isDigit_iff_toNat] at h
  change ((((((65 ≤ c.toNat ∧ c.toNat ≤ 90) ∨ (97 ≤ c.toNat ∧ c.toNat ≤ 122)) ∨ (48 ≤ c.toNat ∧ c.toNat ≤ 57)) ∨
    c = '+') ∨ c = '-') ∨ c = '.') at h
  rcases h with (((hletter | hdigit) | rfl) | rfl) | rfl
  · omega
  · omega
  · decide
  · decide
  · decide

theorem isSchemeChar_plain {c : Char} (h : isSchemeChar c = true) :
    c ≠ ':' ∧ isUnsafe c = false ∧ isC0OrSpace c = false := by
  obtain ⟨hlow, hcolon⟩ := toNat_of_isSchemeChar h
  have hne : ∀ d : Char, d.toNat < 33 → c ≠ d := fun d hd heq => by rw [heq] at hlow; omega
  refine ⟨fun heq => hcolon (by rw [heq]; rfl), ?_, ?_⟩
  · simp [isUnsafe, hne '\t' (by decide), hne '\r' (by decide), hne '\n' (by decide)]
  · simp only [isC0OrSpace, decide_eq_false_iff_not]
    omega

def tailPart (sep : Char) (t : List Char) : List Char := if t = [] then [] else sep :: t

theorem urlunparse_eq {p : ParseResult} (hscheme : p.scheme ≠ []) (hnetloc : p.netloc ≠ [])
    (hrooted : p.whole = [] ∨ p.whole.head? = some '/') :
    p.urlunparse = p.scheme ++ ':' :: '/' :: '/' ::
      (p.netloc ++ (p.whole ++ (tailPart '?' p.query ++ tailPart '#' p.fragment))) := by
  unfold ParseResult.urlunparse tailPart
  simp only [hscheme, hnetloc, hrooted, ne_eq, not_false_iff, if_true, if_false]
  split <;> split <;> simp

theorem before_tailPart {sep : Char} {x : List Char} (h : sep ∉ x) (y : List Char) :
    before sep (x ++ tailPart sep y) = x ∧ after sep (x ++ tailPart sep y) = y := by
  unfold tailPart
  split
  · rename_i hy
    rw [List.append_nil, hy]
    exact ⟨before_self h, after_self h⟩
  · exact ⟨before_append h y, after_append h y⟩

theorem tailPart_clean {sep : Char} (hsep : isUnsafe sep = false) {y : List Char} (hy : ∀ c ∈ y, isUnsafe c = false)
    {c : Char} (hc : c ∈ tailPart sep y) : isUnsafe c = false := by
  unfold tailPart at hc
  split at hc
  · cases hc
  · rcases List.mem_cons.mp hc with rfl | hc
    · exact hsep
    · exact hy c hc

theorem tailPart_delim {x y : List Char} {c : Char}
    (hc : c ∈ ((tailPart '?' x).head?.or (tailPart '#' y).head?)) : isDelim c = true := by
  unfold tailPart at hc
  split at hc
  · split at hc
    · cases hc
    · obtain rfl := Option.some.inj hc
      decide
  · obtain rfl := Option.some.inj hc
    decide

theorem WellFormed.tail_clean {t : Tables} {p : ParseResult} (h : WellFormed t p) :
    ∀ c ∈ p.netloc ++ (p.whole ++ (tailPart '?' p.query ++ tailPart '#' p.fragment)), isUnsafe c = false := by
  intro c hc
  simp only [List.mem_append] at hc
  rcases hc with hc | hc | hc | hc
  · exact h.clean c (by simp [hc])
  · exact h.clean c (by simp [hc])
  · exact tailPart_clean (by decide) (fun d hd => h.clean d (by simp [hd])) hc
  · exact tailPart_clean (by decide) (fun d hd => h.clean d (by simp [hd])) hc

theorem WellFormed.tail_ends {t : Tables} {p : ParseResult} (h : WellFormed t p) (hnetloc : p.netloc ≠ []) :
    ∀ c ∈ (p.whole ++ (tailPart '?' p.query ++ tailPart '#' p.fragment)).head?, isDelim c = true := by
  intro c hc
  rw [List.head?_append, List.head?_append] at hc
  rcases h.rooted hnetloc with hnil | hslash
  · rw [hnil, List.head?_nil, Option.none_or] at hc
    exact tailPart_delim hc
  · rw [hslash] at hc
    obtain rfl := Option.some.inj hc
    decide

theorem WellFormed.hash_notMem {t : Tables} {p : ParseResult} (h : WellFormed t p) :
    '#' ∉ p.whole ++ tailPart '?' p.query := by
  intro hmem
  rcases List.mem_append.mp hmem with hmem | hmem
  · exact h.whole_hash hmem
  · unfold tailPart at hmem
    split at hmem
    · cases hmem
    · exact h.query_hash ((List.mem_cons.mp hmem).resolve_left (by decide))

section

variable {scheme rest : List Char} (hscheme : isScheme scheme = true)
include hscheme

theorem plain_of_isScheme : ∀ c ∈ scheme, c ≠ ':' ∧ isUnsafe c = false ∧ isC0OrSpace c = false := fun c hc =>
  isSchemeChar_plain (List.all_eq_true.mp (Bool.and_eq_true_iff.mp hscheme).2 c hc)

theorem isScheme_ne_nil : scheme ≠ [] := fun hnil => by
  rw [hnil] at hscheme
  cases hscheme

/-- Nothing is stripped from a URL with a scheme, or removed from a clean one. -/
theorem cleaned_scheme (hrest : ∀ c ∈ rest, isUnsafe c = false) :
    ((scheme ++ ':' :: rest).dropWhile isC0OrSpace).filter (!isUnsafe ·) = scheme ++ ':' :: rest := by
  have hplain := plain_of_isScheme hscheme
  obtain ⟨c, cs, hcons⟩ := List.exists_cons_of_ne_nil (isScheme_ne_nil hscheme)
  have hfirst := (hplain c (by rw [hcons]; exact List.mem_cons_self)).2.2
  have hdrop : (scheme ++ ':' :: rest).dropWhile isC0OrSpace = scheme ++ ':' :: rest := by
    rw [hcons]
    exact List.dropWhile_cons_of_neg (by simp [hfirst])
  rw [hdrop, List.filter_eq_self]
  intro d hd
  have hkept : isUnsafe d = false := by
    rcases List.mem_append.mp hd with hd | hd
    · exact (hplain d hd).2.1
    · rcases List.mem_cons.mp hd with rfl | hd
      · decide
      · exact hrest d hd
  rw [hkept]
  rfl

theorem splitScheme_append (hlowered : scheme.map Char.toLower = scheme) :
    splitScheme (scheme ++ ':' :: rest) = (scheme, rest) := by
  have hcolon : ':' ∉ scheme := fun hmem => (plain_of_isScheme hscheme ':' hmem).1 rfl
  rw [splitScheme, before_append hcolon, after_append hcolon, if_pos ⟨by simp, hscheme⟩, hlowered]

end

theorem splitNetloc_append {netloc tail : List Char} (hopen : ∀ c ∈ netloc, isDelim c = false)
    (hends : ∀ c ∈ tail.head?, isDelim c = true) :
    splitNetloc ('/' :: '/' :: (netloc ++ tail)) = (netloc, tail) := by
  have hkept : ∀ c ∈ netloc, (!isDelim c) = true := fun c hc => by rw [hopen c hc]; rfl
  unfold splitNetloc
  simp only
  rw [List.takeWhile_append_of_pos hkept, List.dropWhile_append_of_pos hkept]
  cases tail with
  | nil => simp
  | cons c cs => simp [hends c rfl]

/-- **A parse with a scheme and a network location, put together again, parses to itself.** -/
theorem urlparse_urlunparse {t : Tables} {p : ParseResult} (h : WellFormed t p) (hscheme : isScheme p.scheme = true)
    (hnetloc : p.netloc ≠ []) :
    urlparse t p.urlunparse = some p := by
  rw [urlunparse_eq (isScheme_ne_nil hscheme) hnetloc (h.rooted hnetloc)]
  have hclean := h.tail_clean
  have hends := h.tail_ends hnetloc
  have hfragment := before_tailPart h.hash_notMem p.fragment
  have hquery := before_tailPart h.whole_mark p.query
  rw [List.append_assoc] at hfragment
  generalize p.whole ++ (tailPart '?' p.query ++ tailPart '#' p.fragment) = tail at hclean hends hfragment ⊢
  have hrest : ∀ c ∈ '/' :: '/' :: (p.netloc ++ tail), isUnsafe c = false := by
    intro c hc
    simp only [List.mem_cons] at hc
    rcases hc with rfl | rfl | hc
    · decide
    · decide
    · exact hclean c hc
  simp only [urlparse, cleaned_scheme hscheme hrest, splitScheme_append hscheme h.lowered,
    splitNetloc_append h.open_netloc hends, h.passes, if_true, hfragment, hquery, h.split]

end PyUrl
