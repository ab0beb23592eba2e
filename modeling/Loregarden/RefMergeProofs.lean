import Loregarden.RefMergeModel
import Loregarden.RunProofs

/-! # What a merge with no checkout publishes

`merge-tree` is given the branches' names and everything after it their shas. A call whose names
still named the tips it read, and whose merge came out clean, publishes the merge of its parents
(`published_merge`); the swap at the end keeps every other ref move out. A call that fails has moved
nothing, whatever the others did. -/

namespace Loregarden.RefMerge

open Runs

variable {mergeTree : Sha → Sha → MergeAnswer} {job : Job} {w : World}

/-! ## What holds of a call -/

/-- The tree is what merge-tree makes of the two commits it was run on. -/
structure Merge.Of (mergeTree : Sha → Sha → MergeAnswer) (m : Merge) : Prop where
  tree : m.tree ≠ ""
  result : readMergeTree (mergeTree m.merged.target m.merged.source) = ⟨m.tree, []⟩

/-- The candidate is the commit of the merge on the two tips. -/
def IsCandidate (w : World) (m : Merge) (sha : Sha) : Prop :=
  w.objects sha = some ⟨m.tree, [m.tips.target, m.tips.source]⟩

/-- A commit the call wrote and published: its parents are the tips read, its tree is their
    merge, a verifier accepted it, and the target went from the tip read to it. -/
structure PublishedMerge (mergeTree : Sha → Sha → MergeAnswer) (job : Job) (w : World)
    (sha : Sha) : Prop where
  made : ∃ tips tree, w.tips = some tips ∧ w.objects sha = some ⟨tree, [tips.target, tips.source]⟩ ∧
    (mergeTree tips.target tips.source).returncode = 0 ∧
    readMergeTree (mergeTree tips.target tips.source) = ⟨tree, []⟩ ∧
    w.moves = [(heads job.target, tips.target, sha)]
  verified : job.verified = true → w.verdicts = [(sha, true)]

structure Kept (mergeTree : Sha → Sha → MergeAnswer) (job : Job) (w : World)
    (o : MergeOutcome) : Prop where
  failed : o.ok = false → w.moves = []
  wrote : o.signed.isSome = true → o.ok = true ∧ PublishedMerge mergeTree job w o.sha

/-- A call under way has moved no ref and heard no verdict. -/
structure Untouched (w : World) (tips : Tips) : Prop where
  tips : w.tips = some tips
  moves : w.moves = []
  verdicts : w.verdicts = []

inductive Sound (mergeTree : Sha → Sha → MergeAnswer) (job : Job) (w : World) : Prop where
  | reading (hphase : w.phase = .reading) (hmoves : w.moves = []) (hverdicts : w.verdicts = [])
  | tips (tips : Tips) (h : Untouched w tips)
      (hphase : w.phase ∈ [.advancing tips, .forwarding tips, .checking tips, .merging tips])
  | tree (m : Merge) (h : Untouched w m.tips) (hm : m.Of mergeTree)
      (hphase : w.phase = .signing m ∨ ∃ sign, w.phase = .committing m sign)
  | verifying (m : Merge) (sign : Bool) (sha : Sha) (h : Untouched w m.tips)
      (hm : m.Of mergeTree) (hcandidate : IsCandidate w m sha)
      (hphase : w.phase = .verifying m sign sha)
  | updating (m : Merge) (sign : Bool) (sha : Sha) (htips : w.tips = some m.tips)
      (hmoves : w.moves = []) (hverdicts : job.verified = true → w.verdicts = [(sha, true)])
      (hm : m.Of mergeTree) (hcandidate : IsCandidate w m sha)
      (hphase : w.phase = .updating m sign sha)
  | done (o : MergeOutcome) (h : Kept mergeTree job w o) (hphase : w.phase = .done o)

/-- Where the swap is going to succeed, merge-tree was run on the tips that were read, and
    did not report a conflict without naming a path. -/
def Meets (mergeTree : Sha → Sha → MergeAnswer) (job : Job) (w : World) : Event → Prop
  | .git _ => ∀ m sign sha, w.phase = .updating m sign sha →
      w.refs (heads job.target) = some m.tips.target → m.merged = m.tips ∧
        ((mergeTree m.tips.target m.tips.source).returncode = 1 →
          (readMergeTree (mergeTree m.tips.target m.tips.source)).conflicts ≠ [])
  | _ => True

theorem addObject_keeps {objects : Sha → Option CommitObject} {sha other : Sha}
    {object o : CommitObject} (h : objects other = some o) :
    addObject objects sha object other = some o := by
  unfold addObject
  rw [if_neg]
  · exact h
  · rintro ⟨-, hnone⟩
    exact nomatch h.symm.trans hnone

theorem addObject_same {objects : Sha → Option CommitObject} {sha : Sha} {object : CommitObject}
    (h : objects sha = none ∨ objects sha = some object) :
    addObject objects sha object sha = some object := by
  rcases h with hnone | hsome
  · exact if_pos ⟨rfl, hnone⟩
  · exact addObject_keeps hsome

theorem Sound.frame {w' : World} (h : Sound mergeTree job w) (hphase : w'.phase = w.phase)
    (htips : w'.tips = w.tips) (hmoves : w'.moves = w.moves) (hverdicts : w'.verdicts = w.verdicts)
    (hobjects : ∀ sha o, w.objects sha = some o → w'.objects sha = some o) :
    Sound mergeTree job w' := by
  have huntouched : ∀ tips, Untouched w tips → Untouched w' tips := fun tips h =>
    ⟨htips.trans h.tips, hmoves.trans h.moves, hverdicts.trans h.verdicts⟩
  cases h with
  | reading hp hm hv => exact .reading (hphase.trans hp) (hmoves.trans hm) (hverdicts.trans hv)
  | tips tips h hp => exact .tips tips (huntouched _ h) (hphase ▸ hp)
  | tree m h hm hp => exact .tree m (huntouched _ h) hm (hphase ▸ hp)
  | verifying m sign sha h hm hc hp =>
    exact .verifying m sign sha (huntouched _ h) hm (hobjects _ _ hc) (hphase.trans hp)
  | updating m sign sha ht hmv hv hm hc hp =>
    exact .updating m sign sha (htips.trans ht) (hmoves.trans hmv)
      (fun hgiven => hverdicts.trans (hv hgiven)) hm (hobjects _ _ hc) (hphase.trans hp)
  | done o hkept hp =>
    refine .done o ⟨fun hfailed => hmoves.trans (hkept.failed hfailed), fun hwrote => ?_⟩
      (hphase.trans hp)
    obtain ⟨hok, ⟨tips, tree, ht, ho, hr, hres, hmv⟩, hverified⟩ := hkept.wrote hwrote
    exact ⟨hok, ⟨tips, tree, htips.trans ht, hobjects _ _ ho, hr, hres, hmoves.trans hmv⟩,
      fun hgiven => hverdicts.trans (hverified hgiven)⟩

/-! ## The commands of the call -/

theorem Sound.stop (hmoves : w.moves = []) {o : MergeOutcome} (hsigned : o.signed = none) :
    Sound mergeTree job (w.goTo (.done o)) := by
  refine .done o ⟨fun _ => hmoves, fun hwrote => ?_⟩ rfl
  rw [hsigned] at hwrote
  exact nomatch hwrote

theorem mergeTips_sound {tips : Tips} (h : Untouched w tips) :
    Sound mergeTree job (mergeTips w tips) := by
  unfold mergeTips
  split
  · exact Sound.stop h.moves rfl
  · exact .tips tips ⟨h.tips, h.moves, h.verdicts⟩ (by simp [World.goTo])

theorem readTips_sound (hmoves : w.moves = []) (hverdicts : w.verdicts = []) (a : Answer) :
    Sound mergeTree job (readTips job w a) := by
  unfold readTips
  split
  · exact Sound.stop hmoves rfl
  · split
    · extract_lets tips w'
      have h : Untouched w' tips := ⟨rfl, hmoves, hverdicts⟩
      split
      · exact .tips tips ⟨rfl, hmoves, hverdicts⟩ (by simp [World.goTo])
      · exact mergeTips_sound h
    · exact Sound.stop hmoves rfl

theorem runMergeTree_sound {tips : Tips} (h : Untouched w tips) (a : Answer) :
    Sound mergeTree job (runMergeTree mergeTree job w tips a) := by
  unfold runMergeTree
  split
  · rename_i target source htarget hsource
    extract_lets result
    split
    · exact Sound.stop h.moves rfl
    · split
      · exact Sound.stop h.moves rfl
      · rename_i hclean
        split
        · exact Sound.stop h.moves rfl
        · rename_i htree
          refine .tree ⟨tips, ⟨target, source⟩, result.tree⟩ ⟨h.tips, h.moves, h.verdicts⟩
            ⟨htree, ?_⟩ (.inl rfl)
          show result = ⟨result.tree, []⟩
          rw [← not_not.mp hclean]
  · exact Sound.stop h.moves rfl

theorem commitTree_sound {m : Merge} {sign : Bool} (hphase : w.phase = .committing m sign)
    (h : Untouched w m.tips) (hm : m.Of mergeTree) (a : Answer) :
    Sound mergeTree job (commitTree job w m sign a) := by
  unfold commitTree
  extract_lets object w'
  split
  · exact Sound.stop h.moves rfl
  · split
    · exact .tree m h hm (.inr ⟨sign, hphase⟩)
    · rename_i hfree
      have hcandidate : w'.objects a.sha = some object := by
        refine addObject_same ?_
        by_contra hno
        rw [not_or] at hno
        exact hfree hno
      split
      · exact .verifying m sign a.sha ⟨h.tips, h.moves, h.verdicts⟩ hm hcandidate rfl
      · rename_i hnot
        exact .updating m sign a.sha h.tips h.moves (fun hgiven => absurd hgiven hnot) hm
          hcandidate rfl

theorem updateRef_sound {m : Merge} {sign : Bool} {sha : Sha} (htips : w.tips = some m.tips)
    (hmoves : w.moves = []) (hverdicts : job.verified = true → w.verdicts = [(sha, true)])
    (hm : m.Of mergeTree) (hcandidate : IsCandidate w m sha) (a : Answer)
    (hmeets : w.refs (heads job.target) = some m.tips.target → m.merged = m.tips ∧
      ((mergeTree m.tips.target m.tips.source).returncode = 1 →
        (readMergeTree (mergeTree m.tips.target m.tips.source)).conflicts ≠ [])) :
    Sound mergeTree job (updateRef job w m.tips.target sha a
      { ok := true, sha := sha, signed := some sign }) := by
  unfold updateRef
  split
  · rename_i hswap
    obtain ⟨hsame, hlisted⟩ := hmeets hswap.2
    have hresult := hm.result
    rw [hsame] at hresult
    have hclean : (mergeTree m.tips.target m.tips.source).returncode = 0 := by
      rw [hresult] at hlisted
      -- any other exit leaves no tree
      by_contra hexit
      by_cases hone : (mergeTree m.tips.target m.tips.source).returncode = 1
      · exact hlisted hone rfl
      · refine hm.tree ?_
        have htree : (readMergeTree (mergeTree m.tips.target m.tips.source)).tree = m.tree :=
          congrArg MergeResult.tree hresult
        rw [← htree]
        unfold readMergeTree
        split
        · rfl
        · rw [if_neg hexit, if_neg hone]
    have hmoved : w.moves ++ [(heads job.target, m.tips.target, sha)] =
        [(heads job.target, m.tips.target, sha)] := by rw [hmoves, List.nil_append]
    exact .done { ok := true, sha := sha, signed := some sign } ⟨nofun, fun _ => ⟨rfl,
      ⟨m.tips, m.tree, htips, hcandidate, hclean, hresult, hmoved⟩, hverdicts⟩⟩ rfl
  · exact Sound.stop hmoves rfl

theorem forward_sound (hmoves : w.moves = []) {old new : Sha} (a : Answer) :
    Sound mergeTree job (updateRef job w old new a { ok := true, sha := new }) := by
  unfold updateRef
  split
  · exact .done { ok := true, sha := new } ⟨nofun, nofun⟩ rfl
  · exact Sound.stop hmoves rfl

theorem Sound.runGit (h : Sound mergeTree job w) (a : Answer)
    (hmeets : Meets mergeTree job w (.git a)) : Sound mergeTree job (runGit mergeTree job w a) := by
  have heq := h
  cases h with
  | reading hp hm hv =>
    unfold RefMerge.runGit
    rw [hp]
    exact readTips_sound hm hv a
  | tips tips h hp =>
    unfold RefMerge.runGit
    simp only [List.mem_cons, List.not_mem_nil, or_false] at hp
    rcases hp with hp | hp | hp | hp <;> rw [hp] <;> dsimp only
    · split
      · exact mergeTips_sound h
      · split
        · exact Sound.stop h.moves rfl
        · exact .tips tips ⟨h.tips, h.moves, h.verdicts⟩ (by simp [World.goTo])
    · exact forward_sound h.moves a
    · split
      · exact Sound.stop h.moves rfl
      · exact .tips tips ⟨h.tips, h.moves, h.verdicts⟩ (by simp [World.goTo])
    · exact runMergeTree_sound h a
  | tree m h hm hp =>
    unfold RefMerge.runGit
    rcases hp with hp | ⟨sign, hp⟩ <;> rw [hp]
    · exact .tree m ⟨h.tips, h.moves, h.verdicts⟩ hm (.inr ⟨a.ok, rfl⟩)
    · exact commitTree_sound hp h hm a
  | verifying m sign sha h hm hc hp =>
    unfold RefMerge.runGit
    rw [hp]
    dsimp only
    split
    · rename_i hok
      refine .updating m sign sha h.tips h.moves (fun _ => ?_) hm hc rfl
      show w.verdicts ++ _ = _
      rw [h.verdicts, hok]
      rfl
    · exact .done refused ⟨fun _ => h.moves, nofun⟩ rfl
  | updating m sign sha ht hmv hv hm hc hp =>
    unfold RefMerge.runGit
    rw [hp]
    exact updateRef_sound ht hmv hv hm hc a (hmeets m sign sha hp)
  | done o hkept hp =>
    unfold RefMerge.runGit
    rw [hp]
    exact heq

theorem Sound.step (h : Sound mergeTree job w) (e : Event) (hmeets : Meets mergeTree job w e) :
    Sound mergeTree job (step mergeTree job w e) := by
  cases e with
  | moveRef name value => exact h.frame rfl rfl rfl rfl fun _ _ => id
  | writeObject sha object => exact h.frame rfl rfl rfl rfl fun _ _ => addObject_keeps
  | git a => exact h.runGit a hmeets

def Step (mergeTree : Sha → Sha → MergeAnswer) (job : Job) (w : World) (e : Event)
    (w' : World) : Prop := w' = step mergeTree job w e

/-- **A merge with no checkout publishes the merge of its parents**: in every run that meets
    the condition, a call that ended having written a commit published the merge of the tips
    it read, by one move from the tip read; a call that failed moved nothing. -/
theorem published_merge (mergeTree : Sha → Sha → MergeAnswer) (job : Job) {s t : World}
    {tr : List Event} {o : MergeOutcome} (h0 : Initial s)
    (hr : Run (Guarded (Step mergeTree job) (Meets mergeTree job)) s tr t)
    (hdone : t.phase = .done o) : Kept mergeTree job t o := by
  have hsound : Sound mergeTree job t := by
    refine hr.invariant ?_ (.reading h0.phase h0.moves h0.verdicts)
    rintro u e v hu ⟨hmeets, rfl⟩
    exact hu.step e hmeets
  cases hsound with
  | reading hp | verifying m sign sha h hm hc hp | updating m sign sha ht hmv hv hm hc hp =>
    exact nomatch hp.symm.trans hdone
  | tips tips h hp | tree m h hm hp => simp [hdone] at hp
  | done o' hkept hp =>
    obtain rfl := Phase.done.inj (hp.symm.trans hdone)
    exact hkept

/-! ### A branch that moves on -/

/-- What merge-tree says of two commits with one file each. -/
def joins (target source : Sha) : MergeAnswer := ⟨0, target ++ "+" ++ source ++ "\n"⟩

def landing : Job := { target := "main", source := "topic", verified := true }

def twoBranches : World where
  refs := fun name =>
    if name = "refs/heads/main" then some "m1"
    else if name = "refs/heads/topic" then some "t1" else none
  objects := fun _ => none

theorem twoBranches_initial : Initial twoBranches := ⟨rfl, rfl, rfl, rfl⟩

/-- The commands of a call that merges, signs and verifies. -/
def commands : List Event :=
  [.git {}, .git { ok := false }, .git {}, .git {}, .git { sha := "c" }, .git {}, .git {}]

/-- The same call, where the source gains a commit between the reading and the merge. -/
def overtaken : List Event :=
  commands.take 2 ++ .moveRef "refs/heads/topic" (some "t2") :: commands.drop 2

def meetsNow (mergeTree : Sha → Sha → MergeAnswer) (job : Job) (w : World) : Event → Bool
  | .git _ =>
    match w.phase with
    | .updating m _ _ => w.refs (heads job.target) ≠ some m.tips.target ||
        (m.merged = m.tips &&
          ((mergeTree m.tips.target m.tips.source).returncode ≠ 1 ||
            (readMergeTree (mergeTree m.tips.target m.tips.source)).conflicts ≠ []))
    | _ => true
  | _ => true

theorem published_merge_main : Kept joins landing (commands.foldl (step joins landing) twoBranches)
      { ok := true, sha := "c", signed := some true } := by
  have hcond : meets (step joins landing) (meetsNow joins landing) twoBranches commands = true := by
    decide +kernel
  have hmeets : ∀ w e, meetsNow joins landing w e = true →
      Guarded (Step joins landing) (Meets joins landing) w e (step joins landing w e) := by
    intro w e hnow
    refine ⟨?_, rfl⟩
    cases e with
    | moveRef | writeObject => exact trivial
    | git a =>
      intro m sign sha hp hat
      simp only [meetsNow, hp, hat, ne_eq, not_true_eq_false, decide_false, Bool.false_or,
        Bool.and_eq_true, decide_eq_true_eq, Bool.or_eq_true] at hnow
      exact ⟨hnow.1, fun hone => hnow.2.resolve_left fun hno => hno hone⟩
  exact published_merge joins landing twoBranches_initial (Run.of_meets hmeets hcond)
    (by decide +kernel)

/-- The commit says its parents are the tips that were read, and its tree is the merge of
    another commit of the source; the swap sees the target only, and publishes it. -/
theorem source_overtaken : (overtaken.foldl (step joins landing) twoBranches).phase =
        .done { ok := true, sha := "c", signed := some true } ∧
      (overtaken.foldl (step joins landing) twoBranches).tips = some ⟨"m1", "t1"⟩ ∧
      (overtaken.foldl (step joins landing) twoBranches).objects "c" =
        some ⟨"m1+t2", ["m1", "t1"]⟩ ∧
      (readMergeTree (joins "m1" "t1")).tree = "m1+t1" ∧
      (overtaken.foldl (step joins landing) twoBranches).refs "refs/heads/main" = some "c" ∧
      ¬ Kept joins landing (overtaken.foldl (step joins landing) twoBranches)
        { ok := true, sha := "c", signed := some true } := by
  have hphase : (overtaken.foldl (step joins landing) twoBranches).tips = some ⟨"m1", "t1"⟩ := by
    decide +kernel
  have hobject : (overtaken.foldl (step joins landing) twoBranches).objects "c" =
      some ⟨"m1+t2", ["m1", "t1"]⟩ := by decide +kernel
  refine ⟨by decide +kernel, hphase, hobject, by decide +kernel, by decide +kernel, fun hkept => ?_⟩
  obtain ⟨-, ⟨tips, tree, htips, hmade, -, hresult, -⟩, -⟩ := hkept.wrote rfl
  obtain rfl := Option.some_inj.mp (hphase.symm.trans htips)
  have htree := (CommitObject.mk.inj (Option.some_inj.mp (hobject.symm.trans hmade))).1
  rw [← htree] at hresult
  exact absurd hresult (by decide +kernel)

end Loregarden.RefMerge
