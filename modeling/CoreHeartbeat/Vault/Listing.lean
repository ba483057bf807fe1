/-
  CoreHeartbeat.Vault.Listing — `_list_vault_objects` of `services/storage_sync.py`: the listing
  of a user's prefix, a page a request, and the sync that waits for its end.

  A server answers each request by the token it names, or by its naming none. The loop asks on
  as long as a page says it is truncated, and an absent token asks for the first page again.
  Pages may show any objects, none, or the same ones twice; the fields of a page may be missing,
  as the client library leaves them out.

  A chain of tokens is a walk (`Lib.Walk`): a page leads to the next as long as it is truncated
  and names a token. Over a chain that ends, the loop ends too, or it runs into a page that is
  truncated and names no token (`Tokenless`), and then it starts over for ever. A listing that
  never ends is a sync that never ends (`none`).

  Proved:
  - `listFrom_walk`: along a chain of tokens that ends with the listing, every page is asked for
    once; `listFrom_tokenless`: over a chain with a tokenless page the loop never ends.
  - `listing_terminates_iff`: over a finite chain the listing ends, and the sync with it, just
    when no page says it is truncated and names no token to go on with
    (`listing_terminates_iff_two_pages`).
  - `a_missing_token_restarts`: a truncated page without its token.
  - `syncFromS3Over_serves`: from a server that pages the bucket, the sync is the one of
    `StorageSync`, which takes the listing at once.
-/

import CoreHeartbeat.Vault.SyncPaths
import CoreHeartbeat.Lib.Walk
import Mathlib.Data.List.Induction

namespace CoreHeartbeat.Vault

open Posix

/-! ## The loop -/

structure PageEntry where
  key : Option String
  etag : Option String

/-- One response of `list_objects_v2`: the fields that the loop reads, absent or not. -/
structure ListPage where
  contents : Option (List PageEntry)
  isTruncated : Option Bool
  nextContinuationToken : Option String

/-- A request of a prefix, by its `ContinuationToken`. -/
abbrev Request := Option String

abbrev Server := Request → ListPage

/-- `if token:`. -/
def requestOf (token : Option String) : Request := token.filter (· ≠ "")

def yielded (page : ListPage) : List (String × Option String) :=
  (page.contents.getD []).filterMap fun obj =>
    match obj.key with
    | some key => if key = "" then none else some (key, obj.etag)
    | none => none

def ListPage.truncated (page : ListPage) : Bool := page.isTruncated.getD false

variable (server : Server)

/-- The loop from a token on: the requests it makes and what it yields. -/
def listFrom : Nat → Option String → Option (List Request × List (String × Option String))
  | 0, _ => none
  | fuel + 1, token =>
    let request := requestOf token
    let resp := server request
    if !resp.truncated then some ([request], yielded resp)
    else
      match listFrom fuel resp.nextContinuationToken with
      | none => none
      | some (requests, objs) => some (request :: requests, yielded resp ++ objs)

def listVaultObjects (fuel : Nat) : Option (List Request × List (String × Option String)) := listFrom server fuel none

/-- Where the page of a request sends the loop on to, if it names a token. -/
def follow (request : Request) : Option Request :=
  let page := server request
  if page.truncated then (requestOf page.nextContinuationToken).map some else none

/-- The page says that there is more and does not say where. -/
def ListPage.Tokenless (page : ListPage) : Prop :=
  page.truncated = true ∧ requestOf page.nextContinuationToken = none

/-- The listing ends: it has asked for no page twice, and yielded what each of them shows. -/
def ListsOnce : Prop :=
  ∃ fuel requests objs, listVaultObjects server fuel = some (requests, objs) ∧ requests.Nodup ∧
    objs = requests.flatMap fun request => yielded (server request)

/-! ## Along a chain of tokens -/

theorem follow_eq_some {request next : Request} :
    follow server request = some next ↔
      (server request).truncated = true ∧ requestOf (server request).nextContinuationToken = next ∧ next ≠ none := by
  unfold follow
  by_cases hmore : (server request).truncated = true
  · simp only [hmore, if_true, true_and]
    cases requestOf (server request).nextContinuationToken with
    | none => exact iff_of_false nofun fun h => h.2 h.1.symm
    | some t =>
      constructor
      · intro h
        obtain rfl := Option.some.inj h
        exact ⟨rfl, nofun⟩
      · intro h
        exact congrArg some h.1
  · simp [hmore]

theorem follow_eq_none {request : Request} :
    follow server request = none ↔ (server request).truncated = false ∨ (server request).Tokenless := by
  unfold follow ListPage.Tokenless
  by_cases hmore : (server request).truncated = true <;> simp [hmore]

variable {server}

/-- Over a chain without a tokenless page the loop asks for each page of it, once. -/
theorem listFrom_walk {request : Request} {requests : List Request} (hwalk : Walk (follow server) request requests)
    (hnamed : ∀ r ∈ requests, ¬ (server r).Tokenless) {token : Option String} (htoken : requestOf token = request) :
    listFrom server requests.length token =
      some (requests, requests.flatMap fun request => yielded (server request)) := by
  induction hwalk generalizing token with
  | @last request hend =>
    have hdone : (server request).truncated = false :=
      ((follow_eq_none server).mp hend).resolve_right (hnamed request List.mem_cons_self)
    simp only [List.length_singleton, listFrom, htoken, hdone, Bool.not_false, if_true, List.flatMap_singleton]
  | @step request next rest hnext _ ih =>
    obtain ⟨hmore, hasked, -⟩ := (follow_eq_some server).mp hnext
    have hrest := ih (fun r hr => hnamed r (List.mem_cons_of_mem _ hr)) hasked
    simp only [List.length_cons, listFrom, htoken, hmore, Bool.not_true, Bool.false_eq_true, if_false, hrest,
      List.flatMap_cons]

/-- Over a chain with one the loop never ends: it is the last, and sends the loop back to
    the first. -/
theorem listFrom_tokenless {requests : List Request} (hwalk : Walk (follow server) none requests) {r : Request}
    (hr : r ∈ requests) (hless : (server r).Tokenless) (fuel : Nat) {token : Option String}
    (htoken : requestOf token ∈ requests) : listFrom server fuel token = none := by
  have hstuck : follow server r = none := (follow_eq_none server).mpr (Or.inr hless)
  induction fuel generalizing token with
  | zero => rfl
  | succ fuel ih =>
    have hon : (server (requestOf token)).truncated = true ∧
        requestOf (server (requestOf token)).nextContinuationToken ∈ requests := by
      rcases hwalk.follows_of_stuck hr hstuck htoken with heq | hnext
      · rw [heq, hless.2]
        exact ⟨hless.1, hwalk.start_mem⟩
      · obtain ⟨next, hnext⟩ := Option.isSome_iff_exists.mp hnext
        obtain ⟨hmore, hasked, -⟩ := (follow_eq_some server).mp hnext
        exact ⟨hmore, hasked ▸ hwalk.next_mem htoken hnext⟩
    simp only [listFrom, hon.1, Bool.not_true, Bool.false_eq_true, if_false, ih hon.2]

/-! ## The sync -/

/-- `dict(…)` of pairs: a key stays where it first stood, with its last value. -/
def dictOf {α : Type} (l : List (String × α)) : List (String × α) :=
  l.foldl (fun d x => if d.any (·.1 == x.1) then d.map fun y => if y.1 = x.1 then x else y else d ++ [x]) []

/-- `_sync_from_s3` once it has its listing; `data` are the bytes of the objects. -/
def syncFromS3Listed (a : Account) (env : SyncEnv) (data : String → ByteArray) (l : List (String × Option String))
    (v : VaultState) : VaultState × Synced :=
  if etagsAvailable l && v.etags.any (l.isPerm ·) && v.fs.isDir a.dest then (v, .skipped)
  else
    match resetDest a v.fs with
    | (fs, false) => ({ v with fs }, .failed)
    | (fs, true) =>
      let notes := l.filterMap fun x => incoming a.user ⟨x.1, data x.1, env.fetched x.1⟩
      let (fs, landed, complete) := downloadAll a notes fs
      ({ v with fs, etags := if complete && etagsAvailable l then some l else v.etags }, .wiped landed complete)

/-- `_sync_from_s3` with a server: `none` while the listing goes on. -/
def syncFromS3Over (server : Server) (fuel : Nat) (a : Account) (env : SyncEnv) (data : String → ByteArray)
    (v : VaultState) : Option (VaultState × Synced) :=
  if !env.listed then some (v, .failed)
  else (listVaultObjects server fuel).map fun (_, objs) => syncFromS3Listed a env data (dictOf objs) v

/-- For every server with a finite chain of tokens: the listing and every sync end, with no
    page asked for twice and each shown once, if and only if no page of the chain says it is
    truncated without a token to go on with. -/
theorem listing_terminates_iff {server : Server} {requests : List Request}
    (hchain : Walk (follow server) none requests) :
    (ListsOnce server ∧ ∀ a env data v, ∃ fuel, (syncFromS3Over server fuel a env data v).isSome = true) ↔
      ∀ r ∈ requests, ¬ (server r).Tokenless := by
  constructor
  · intro h r hr hless
    obtain ⟨⟨fuel, _, _, hlist, -⟩, -⟩ := h
    have hnever : listFrom server fuel none = none := listFrom_tokenless hchain hr hless fuel hchain.start_mem
    rw [listVaultObjects, hnever] at hlist
    cases hlist
  · intro hnamed
    have hlist : listVaultObjects server requests.length = some _ := listFrom_walk hchain hnamed rfl
    refine ⟨⟨_, _, _, hlist, hchain.nodup, rfl⟩, fun a env data v => ⟨requests.length, ?_⟩⟩
    unfold syncFromS3Over
    split
    · rfl
    · rw [hlist]; rfl

def twoPages : Server := fun request =>
  if request = some "tok" then ⟨some [⟨some "user-123/p2.md", none⟩], none, none⟩
  else ⟨some [⟨some "user-123/p1.md", none⟩], some true, some "tok"⟩

/-- The same pages, the first of them without its token. -/
def tokenDropped : Server := fun request => { twoPages request with nextContinuationToken := none }

theorem listing_terminates_iff_two_pages :
    (ListsOnce twoPages ∧ ∀ a env data v, ∃ fuel, (syncFromS3Over twoPages fuel a env data v).isSome = true) ↔
      ∀ r ∈ [none, some "tok"], ¬ (twoPages r).Tokenless :=
  listing_terminates_iff (.step (by decide) (.last (by decide)))

/-- A truncated page without its token: a finite chain, and a listing that never ends. -/
theorem a_missing_token_restarts :
    Walk (follow tokenDropped) none [none] ∧ (∀ fuel, listVaultObjects tokenDropped fuel = none) ∧
      ¬ ListsOnce tokenDropped := by
  have hwalk : Walk (follow tokenDropped) none [none] := .last (by decide)
  have hnever : ∀ fuel, listVaultObjects tokenDropped fuel = none := fun fuel =>
    listFrom_tokenless hwalk List.mem_cons_self ⟨by decide, by decide⟩ fuel hwalk.start_mem
  refine ⟨hwalk, hnever, fun h => ?_⟩
  obtain ⟨fuel, _, _, hlist, -⟩ := h
  rw [hnever] at hlist
  cases hlist

/-! ## A server that pages the bucket -/

/-- The pages of the chain, one after the other, are the user's part of the bucket. -/
def Serves (server : Server) (a : Account) (b : Bucket) : Prop :=
  ∃ requests, Walk (follow server) none requests ∧ (∀ r ∈ requests, ¬ (server r).Tokenless) ∧
    (requests.flatMap fun request => yielded (server request)) = listing a b

def Bucket.dataOf (b : Bucket) (key : String) : ByteArray := ((b.objects.find? (·.1 = key)).map (·.2.data)).getD .empty

theorem Bucket.dataOf_mem {b : Bucket} {x : String × Object} (hx : x ∈ b.objects) : b.dataOf x.1 = x.2.data := by
  have hfind : b.objects.find? (·.1 = x.1) = some x := by
    obtain ⟨l, m, hsplit⟩ := List.append_of_mem hx
    have hsorted := b.sorted
    rw [hsplit] at hsorted
    rw [hsplit, List.find?_append, List.find?_cons_of_pos (by simp), List.find?_eq_none.mpr, Option.none_or]
    intro y hy
    have hlt := (List.pairwise_append.mp hsorted).2.2 y hy x List.mem_cons_self
    simpa using hlt.ne
  rw [dataOf, hfind]
  rfl

theorem listing_sorted (a : Account) (b : Bucket) : (listing a b).Pairwise fun x y => x.1 < y.1 :=
  List.pairwise_map.mpr (b.sorted.filter _)

/-- Pairs of distinct keys are a dict as they stand. -/
theorem dictOf_sorted {α : Type} {l : List (String × α)} (h : l.Pairwise fun x y => x.1 < y.1) : dictOf l = l := by
  induction l using List.reverseRecOn with
  | nil => rfl
  | append_singleton l x ih =>
    obtain ⟨hl, -, hlt⟩ := List.pairwise_append.mp h
    have hnew : l.any (·.1 == x.1) = false := by
      rw [List.any_eq_false]
      intro y hy
      simpa using (hlt y hy x List.mem_cons_self).ne
    have hdict := ih hl
    unfold dictOf at hdict ⊢
    rw [List.foldl_append, hdict]
    simp only [List.foldl_cons, List.foldl_nil, hnew, Bool.false_eq_true, if_false]

/-- Two sorted dicts are equal as dicts just when they are as lists. -/
theorem isPerm_sorted {l m : List (String × Option String)} (hl : l.Pairwise fun x y => x.1 < y.1)
    (hm : m.Pairwise fun x y => x.1 < y.1) : l.isPerm m = true ↔ m = l := by
  rw [List.isPerm_iff]
  constructor
  · intro hperm
    exact (hperm.eq_of_pairwise (fun _ _ _ _ h h' => absurd (h.trans h') (lt_irrefl _)) hl hm).symm
  · intro heq
    rw [heq]

theorem listing_notes (a : Account) (env : SyncEnv) (b : Bucket) :
    ((listing a b).filterMap fun x => incoming a.user ⟨x.1, b.dataOf x.1, env.fetched x.1⟩) = listedNotes a env b := by
  rw [listedNotes_eq, listedObjects, listing, ← listed, List.filterMap_map, List.filterMap_map]
  refine List.filterMap_congr fun x hx => ?_
  simp only [Function.comp_apply, Bucket.dataOf_mem (List.mem_filter.mp hx).1]

/-- From a server that pages the bucket, a sync whose cached listing is one of its own does
    what it does with the bucket at hand. -/
theorem syncFromS3Over_serves {server : Server} {a : Account} {env : SyncEnv} {v : VaultState}
    (hserves : Serves server a v.bucket) (hcache : ∀ l, v.etags = some l → l.Pairwise fun x y => x.1 < y.1) :
    ∃ fuel, syncFromS3Over server fuel a env v.bucket.dataOf v = some (syncFromS3 a env v) := by
  obtain ⟨requests, hwalk, hnamed, hall⟩ := hserves
  have hlist : listVaultObjects server requests.length = some (requests, listing a v.bucket) := by
    rw [← hall]
    exact listFrom_walk hwalk hnamed rfl
  have hsame : (v.etags.any fun m => (listing a v.bucket).isPerm m) = (v.etags == some (listing a v.bucket)) := by
    cases hetags : v.etags with
    | none => rfl
    | some m =>
      rw [Bool.eq_iff_iff, Option.any_some, isPerm_sorted (listing_sorted a v.bucket) (hcache m hetags)]
      simp
  refine ⟨requests.length, ?_⟩
  unfold syncFromS3Over syncFromS3
  split
  · rfl
  · simp only [hlist, Option.map_some, dictOf_sorted (listing_sorted a v.bucket), syncFromS3Listed, hsame,
      listing_notes, unchanged]
    rfl

end CoreHeartbeat.Vault
