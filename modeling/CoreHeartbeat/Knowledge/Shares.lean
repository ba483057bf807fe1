/-
  CoreHeartbeat.Knowledge.Shares — a search over several named documents (`_tool_search` of
  `knowledge_chat.py`): one search for each, the results merged in turn.

  What the weak-match cut keeps and what fits into the budget are prefixes of the merge, so
  whichever cuts, no document is shown more than one passage ahead of another that has any left.
  With distinct passages none is shown twice.

  The lists may have any lengths and the passages any scores and sizes; the searches may end in
  any order, and the context may have passages and a count from before. The service answers each
  document's search with its list (`Answered`); a search that fails is another path of the tool,
  on which no passage is shown.

  The merge is `Lib.RoundRobin`'s. `interleaved`, which goes by the length of the longest list
  and the lists that reach so far, is shown to be that merge (`interleaved_eq`), and the
  elements of each list are followed by the number of their list (`tagged`, `share`).

  Proved:
  - `keptChunks_prefix`, `printed_prefix`: both cuts leave a prefix.
  - `shownBy_prints`: what a search shows is what its result prints, a line for each passage.
  - `search_shares`: what is shown is a prefix of the merge, in which every result stands once
    and each document's in its order; of two documents the one with less to show is one passage
    behind or has no more (`search_shares_two_issues`).
-/

import CoreHeartbeat.Lib.RoundRobin
import CoreHeartbeat.Knowledge.Budget

namespace CoreHeartbeat.Knowledge

open CoreHeartbeat.Graph (Json Args)
open TurnContext (Row)

/-! ## What is searched for -/

def queryOf (st : Settings) (args : Args) : String :=
  String.ofList (PyText.strip (st.str (orElse ((args.lookup "query").getD .null) (.str ""))).toList)

def documentsOf (st : Settings) (args : Args) : Except Fault (List String) := do
  let named ← items (orElse ((args.lookup "documents").getD .null) (.arr []))
  return (named.map st.str).filter fun d => PyText.strip d.toList ≠ []

/-- The service answers the search in each document with its list. -/
def Answered (st : Settings) (kb : Kb) (query : String) (documents : List String) (lists : List (List Json)) : Prop :=
  List.Forall₂ (fun (d : String × Nat) l => ∃ payload,
      kb.search d.2 query (max 3 (st.searchTopK / documents.length)) (some [d.1]) = .ok payload ∧
        (get payload "chunks").map (orElse · (.arr [])) = .ok (.arr l))
    documents.zipIdx lists

def rowKey (row : Json → Except Fault (Row × (Passage → String))) (c : Json) : Option String :=
  match row c with
  | .ok (r, _) => some r.key
  | .error _ => none

/-! ## The merge -/

theorem round_eq (lists : List (List Json)) (i : Nat) :
    RoundRobin.round lists i = (lists.filter fun l => i < l.length).map fun l => l.getD i .null := by
  induction lists with
  | nil => rfl
  | cons l lists ih =>
    unfold RoundRobin.round at ih ⊢
    by_cases h : i < l.length
    · rw [List.filterMap_cons_some (f := (·[i]?)) (List.getElem?_eq_getElem h), List.filter_cons_of_pos (by simpa using h),
        List.map_cons, ih]
      simp [List.getD, h]
    · rw [List.filterMap_cons_none (f := (·[i]?)) (List.getElem?_eq_none (Nat.le_of_not_lt h)),
        List.filter_cons_of_neg (by simpa using h), ih]

theorem interleaved_eq (lists : List (List Json)) : interleaved (lists.map .arr) = .ok (RoundRobin.merge lists) := by
  have hlens : (lists.map Json.arr).mapM lenOf = .ok (lists.map List.length) := by
    rw [Fallible.mapM_ok_iff, List.forall₂_map_left_iff, List.forall₂_map_right_iff, List.forall₂_same]
    exact fun _ _ => rfl
  have hrounds : ((List.range ((lists.map List.length).foldl max 0)).mapM fun i =>
      (((lists.map Json.arr).zip (lists.map List.length)).filter fun l => i < l.2).mapM fun l => itemAt l.1 i) =
        .ok ((List.range ((lists.map List.length).foldl max 0)).map (RoundRobin.round lists)) := by
    rw [Fallible.mapM_ok_iff, List.forall₂_map_right_iff, List.forall₂_same]
    intro i _
    rw [List.zip_map', List.filter_map, Fallible.mapM_ok_iff, round_eq, List.forall₂_map_left_iff,
      List.forall₂_map_right_iff]
    exact List.forall₂_same.mpr fun _ _ => rfl
  simp only [interleaved, hlens, bind, Except.bind, hrounds]
  rfl

theorem gathered_ok {ε α : Type} (rank : Nat → Nat) (l : List α) : gathered rank (l.map (Except.ok (ε := ε))) = .ok l := by
  have hnone : ((completionOrder rank (l.map (Except.ok (ε := ε))).length).findSome? fun i =>
      (l.map (Except.ok (ε := ε)))[i]?.bind failure) = none := by
    rw [List.findSome?_eq_none_iff]
    intro i _
    rw [List.getElem?_map]
    cases l[i]? <;> rfl
  unfold gathered
  rw [hnone, Fallible.mapM_ok_iff, List.forall₂_map_left_iff]
  exact List.forall₂_same.mpr fun _ _ => rfl

/-- What several searches come to: the chunks of their lists in turn. -/
theorem searchPayload_merge {st : Settings} {kb : Kb} {query : String} {documents : List String}
    {lists : List (List Json)} (hmany : 1 < documents.length) (h : Answered st kb query documents lists) :
    searchPayload st kb query documents = .ok (.obj [("chunks", .arr (RoundRobin.merge lists))]) := by
  obtain ⟨payloads, hsearch, hchunks⟩ : ∃ payloads : List Json,
      (documents.zipIdx.map fun d => kb.search d.2 query (max 3 (st.searchTopK / documents.length)) (some [d.1])) =
        payloads.map .ok ∧ List.Forall₂ (fun p l => (get p "chunks").map (orElse · (.arr [])) = .ok (.arr l)) payloads lists := by
    unfold Answered at h
    generalize documents.zipIdx = numbered at h
    induction h with
    | nil => exact ⟨[], rfl, .nil⟩
    | cons hd _ ih =>
      obtain ⟨payload, hp, hl⟩ := hd
      obtain ⟨payloads, hps, hls⟩ := ih
      exact ⟨payload :: payloads, by rw [List.map_cons, List.map_cons, hp, hps], .cons hl hls⟩
  have hlists : (payloads.mapM fun r => do return orElse (← get r "chunks") (.arr [])) =
      (.ok (lists.map Json.arr) : Except Fault (List Json)) := by
    rw [Fallible.mapM_ok_iff, List.forall₂_map_right_iff]
    exact hchunks
  unfold searchPayload
  rw [if_pos hmany]
  simp only [hsearch, gathered_ok, bind, Except.bind]
  simp only [bind, Except.bind] at hlists
  simp only [hlists, interleaved_eq]
  rfl

/-! ## The cuts -/

theorem keptChunks_prefix {st : Settings} {documents : List String} {merged chunks : List Json} (hnamed : documents ≠ [])
    (h : keptChunks st documents (.obj [("chunks", .arr merged)]) = .ok chunks) : chunks <+: merged := by
  have hall : itemsOf (.obj [("chunks", .arr merged)]) "chunks" = .ok merged := by
    cases merged <;> rfl
  simp only [keptChunks, hall, hnamed, if_false, bind, Except.bind] at h
  split at h
  · cases h
  · split at h
    · rw [← Except.ok.inj h]
      exact List.take_prefix _ _
    · obtain rfl := Except.ok.inj h
      exact List.prefix_refl _

theorem searchFindings_prefix {st : Settings} {kb : Kb} {ctx : TurnContext} {args : Args} {documents : List String}
    {lists : List (List Json)} (hdocs : documentsOf st args = .ok documents) (hmany : 1 < documents.length)
    (hanswered : Answered st kb (queryOf st args) documents lists) {summaries : List String} {chunks : List Json}
    (h : searchFindings st kb ctx args = .ok (.inr (summaries, chunks))) : chunks <+: RoundRobin.merge lists := by
  have hnamed : documents ≠ [] := fun hnil => by simp [hnil] at hmany
  have hpayload := searchPayload_merge hmany hanswered
  obtain ⟨named, hitems, hdocs⟩ := Fallible.bind_ok.mp hdocs
  obtain rfl := Except.ok.inj hdocs
  unfold queryOf at hpayload
  simp only [searchFindings] at h
  split at h
  · cases h
  · obtain ⟨_, hitems', h⟩ := Fallible.bind_ok.mp h
    obtain rfl := Except.ok.inj (hitems.symm.trans hitems')
    rw [hpayload] at h
    obtain ⟨kept, hkept, h⟩ := Fallible.bind_ok.mp h
    split at h
    · cases h
    · obtain ⟨_, -, h⟩ := Fallible.bind_ok.mp h
      obtain ⟨-, rfl⟩ := Prod.mk.inj (Sum.inr.inj (Except.ok.inj h))
      exact keptChunks_prefix hnamed hkept

/-- The loop prints passages of the chunks up to where it stops. -/
theorem printed_prefix (cap : Int) (row : Json → Except Fault (Row × (Passage → String))) (ctx : TurnContext)
    (cs : List Json) :
    ∃ k, (printed cap row ctx cs).map (fun p => some p.key) = (cs.take k).map (rowKey row) := by
  induction cs generalizing ctx with
  | nil => exact ⟨0, rfl⟩
  | cons c cs ih =>
    unfold printed
    cases hrow : row c with
    | error fault => exact ⟨0, rfl⟩
    | ok found =>
      obtain ⟨r, line⟩ := found
      rcases hadd : ctx.add cap r with ⟨_ | p, ctx'⟩
      · exact ⟨0, by simp only [hadd]; rfl⟩
      · obtain ⟨k, hk⟩ := ih ctx'
        have hkey := (TurnContext.add_mem (congrArg Prod.fst hadd)).2
        refine ⟨k + 1, ?_⟩
        simp only [hadd, List.map_cons, List.take_succ_cons, hk, hkey, rowKey, hrow]

/-- What a search shows, it shows of the merge from its start. -/
theorem shownBy_prefix {st : Settings} {kb : Kb} {args : Args} {documents : List String} {lists : List (List Json)}
    (ctx : TurnContext) (hdocs : documentsOf st args = .ok documents) (hmany : 1 < documents.length)
    (hanswered : Answered st kb (queryOf st args) documents lists) :
    ∃ k, (shownBy st kb ctx "search_knowledge" args).map (fun p => some p.key) =
      ((RoundRobin.merge lists).take k).map (rowKey (searchRow st)) := by
  unfold shownBy loopOf
  cases hfound : searchFindings st kb ctx args with
  | error fault => exact ⟨0, by cases (callTool st kb ctx "search_knowledge" args).1 <;> rfl⟩
  | ok found =>
    cases found with
    | inl text => exact ⟨0, by cases (callTool st kb ctx "search_knowledge" args).1 <;> rfl⟩
    | inr found =>
      obtain ⟨summaries, chunks⟩ := found
      cases (callTool st kb ctx "search_knowledge" args).1 with
      | error fault => exact ⟨0, rfl⟩
      | ok text =>
        obtain ⟨k, hk⟩ := printed_prefix st.contextChars (searchRow st) ctx chunks
        obtain ⟨rest, hmerge⟩ := searchFindings_prefix hdocs hmany hanswered hfound
        refine ⟨min k chunks.length, ?_⟩
        rw [← hmerge, List.take_append_of_le_length (Nat.min_le_right k chunks.length), List.take_eq_take_min.symm]
        exact hk

/-- How the result of a search prints passages: a line for each, under the summaries and over
    the notice of a full budget. -/
def Prints (st : Settings) (kb : Kb) (ctx : TurnContext) (args : Args) (shown : List Passage) (text : String) : Prop :=
  match searchFindings st kb ctx args with
  | .error _ => False
  | .ok (.inl answer) => text = answer ∧ shown = []
  | .ok (.inr (summaries, _)) => ∃ lines notice, (notice = [] ∨ notice = [contextFull]) ∧
      List.Forall₂ (fun p text => ∃ c r line, searchRow st c = .ok (r, line) ∧ text = line p) shown lines ∧
      text = if summaries ++ lines ++ notice = [] then
          "Context budget for this turn is full — answer from the passages you have."
        else "\n\n".intercalate (summaries ++ lines ++ notice)

/-- What a search shows is what its result prints. -/
theorem shownBy_prints {st : Settings} {kb : Kb} {ctx : TurnContext} {args : Args} {text : String}
    (h : (callTool st kb ctx "search_knowledge" args).1 = .ok text) :
    Prints st kb ctx args (shownBy st kb ctx "search_knowledge" args) text := by
  unfold shownBy
  rw [h]
  replace h : (toolSearch st kb ctx args).1 = .ok text := h
  unfold Prints loopOf
  unfold toolSearch at h
  cases hfound : searchFindings st kb ctx args with
  | error fault =>
    rw [hfound] at h
    cases h
  | ok found =>
    rw [hfound] at h
    cases found with
    | inl answer =>
      cases h
      exact ⟨rfl, rfl⟩
    | inr found =>
      obtain ⟨summaries, chunks⟩ := found
      dsimp only at h ⊢
      split at h
      · cases h
      · rename_i lines full ctx' hloop
        refine ⟨lines, if full then [contextFull] else [], by cases full <;> simp, addChunks_printed hloop, ?_⟩
        exact (Except.ok.inj h).symm

open RoundRobin (merge tagged share)

/-- **What a search over several documents shows is a prefix of their results merged in
    turn.** The merge has every result once, each document's in its order; of two documents
    the one with less to show is one passage behind or has no more; distinct passages are
    shown once; and what is shown is what the result prints. -/
theorem search_shares {st : Settings} {kb : Kb} {args : Args} {documents : List String} {lists : List (List Json)}
    (ctx : TurnContext) (hdocs : documentsOf st args = .ok documents) (hmany : 1 < documents.length)
    (hanswered : Answered st kb (queryOf st args) documents lists) :
    ((merge (tagged lists)).Perm (tagged lists).flatten ∧ ∀ l ∈ tagged lists, l.Sublist (merge (tagged lists))) ∧
      ∃ shown, shown <+: merge (tagged lists) ∧
        (shownBy st kb ctx "search_knowledge" args).map (fun p => some p.key) =
          shown.map (fun c => rowKey (searchRow st) c.2) ∧
        (∀ i j l m, lists[i]? = some l → lists[j]? = some m →
          share j shown ≤ share i shown + 1 ∨ share i shown = l.length) ∧
        ((lists.flatten.map (rowKey (searchRow st))).Nodup →
          ((shownBy st kb ctx "search_knowledge" args).map (·.key)).Nodup) ∧
        ∀ text, (callTool st kb ctx "search_knowledge" args).1 = .ok text →
          Prints st kb ctx args (shownBy st kb ctx "search_knowledge" args) text := by
  refine ⟨⟨RoundRobin.merge_perm _, fun l hl => RoundRobin.sublist_merge hl⟩, ?_⟩
  obtain ⟨k, hshown⟩ := shownBy_prefix ctx hdocs hmany hanswered
  have huntag : (merge (tagged lists)).map Prod.snd = merge lists := by
    rw [← RoundRobin.merge_map, RoundRobin.tagged_untag]
  refine ⟨(merge (tagged lists)).take k, List.take_prefix _ _, ?_, fun i j l m hi hj => ?_, fun hdistinct => ?_,
    fun text => shownBy_prints⟩
  · rw [hshown, ← huntag, ← List.map_take, List.map_map]
    rfl
  · exact RoundRobin.prefix_fair (List.take_prefix _ _) hi hj
  · have hmerge : ((merge lists).map (rowKey (searchRow st))).Nodup :=
      ((RoundRobin.merge_perm lists).map _).nodup_iff.mpr hdistinct
    have hkeys : ((shownBy st kb ctx "search_knowledge" args).map fun p => some p.key).Nodup := by
      rw [hshown, List.map_take]
      exact hmerge.sublist (List.take_sublist _ _)
    rw [show (fun p : Passage => some p.key) = some ∘ (·.key) from rfl, ← List.map_map] at hkeys
    exact hkeys.of_map

def issuePassage (id : Int) (title content : String) : Json :=
  .obj [("id", .int id), ("title", .str title), ("content", .str content), ("score", .int 3)]

def issueResults : List (List Json) :=
  [[issuePassage 1 "Aug 28" "CMBS bottomed.", issuePassage 2 "Aug 28" "Issuance rose."],
    [issuePassage 3 "Sep 11" "Spreads widened."]]

def issuesKb : Kb := { emptyKb with search := fun i _ _ _ => .ok (.obj [("chunks", .arr (issueResults.getD i []))]) }

def compareIssues : Args := [("query", .str "CMBS"), ("documents", .arr [.str "Aug 28", .str "Sep 11"])]

theorem search_shares_two_issues :
    ((merge (tagged issueResults)).Perm (tagged issueResults).flatten ∧
        ∀ l ∈ tagged issueResults, l.Sublist (merge (tagged issueResults))) ∧
      ∃ shown, shown <+: merge (tagged issueResults) ∧
        (shownBy (plainSettings 4) issuesKb (.empty []) "search_knowledge" compareIssues).map (fun p => some p.key) =
          shown.map (fun c => rowKey (searchRow (plainSettings 4)) c.2) ∧
        (∀ i j l m, issueResults[i]? = some l → issueResults[j]? = some m →
          share j shown ≤ share i shown + 1 ∨ share i shown = l.length) ∧
        ((issueResults.flatten.map (rowKey (searchRow (plainSettings 4)))).Nodup →
          ((shownBy (plainSettings 4) issuesKb (.empty []) "search_knowledge" compareIssues).map (·.key)).Nodup) ∧
        ∀ text, (callTool (plainSettings 4) issuesKb (.empty []) "search_knowledge" compareIssues).1 = .ok text →
          Prints (plainSettings 4) issuesKb (.empty []) compareIssues
            (shownBy (plainSettings 4) issuesKb (.empty []) "search_knowledge" compareIssues) text :=
  search_shares (.empty [])
    (show documentsOf (plainSettings 4) compareIssues = .ok ["Aug 28", "Sep 11"] from rfl) (by decide)
    (.cons ⟨_, rfl, rfl⟩ (.cons ⟨_, rfl, rfl⟩ .nil))

/-- With room for two passages each issue has one. -/
example :
    (shownBy { plainSettings 4 with contextChars := 30 } issuesKb (.empty []) "search_knowledge" compareIssues).map
      (·.text) = ["CMBS bottomed.", "Spreads widened."] := by
  decide +kernel

end CoreHeartbeat.Knowledge
