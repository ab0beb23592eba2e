import Loregarden.DiskSafetyModel

/-! # What cleanup lets through

    The checks on the path itself hold for everything below it: no protected path, no
    process. Of the working trees below it they see those whose `.git` is a folder the
    search reaches; one marked by a `.git` file, or under a folder of a regenerable name,
    they do not.

    * `findPrecious_finds`: the search names a `.git` folder it reaches;
    * `judge_ok`: what an allowed path has passed;
    * `cleanup_spares_work`: when nothing that is allowed holds work. -/

namespace Loregarden.Disk

open List

variable {fs node : Node} {git : Git} {ctx : SafetyContext} {path root folder : Path}
  {name : String} {w left : Walk}
variable {entries : List (String × Node)} {verdict : Verdict}

/-! ## The search -/

theorem Node.at_append (node : Node) (p q : Path) :
    node.at_ (p ++ q) = (node.at_ p).bind (·.at_ q) := by
  induction p generalizing node with
  | nil => rfl
  | cons name rest ih =>
    cases node with
    | dir entries =>
      rw [cons_append, Node.at_, Node.at_]
      split
      · rfl
      · exact ih _
    | _ => rfl

/-- Below a node lies a repository's `.git` folder, behind no folder of a regenerable name. -/
def Leads (node : Node) : Prop :=
  ∃ rest : Path, (∀ name ∈ rest, regenerableName name = false) ∧
    (node.at_ (rest ++ [".git"])).any Node.isDir

/-- A search still finds something: it has, or it will list a folder that leads on. -/
def Finds (w : Walk) : Prop := w.hits ≠ [] ∨ ∃ entry ∈ w.stack, Leads entry.2

theorem Finds.visit (h : Finds w) : Finds (visit w folder name node) := by
  rw [Disk.visit]
  split
  · exact h
  · split
    · split
      · exact .inl (append_ne_nil_of_right_ne_nil _ (cons_ne_nil _ _))
      · exact h
    · split
      · exact .inl (append_ne_nil_of_right_ne_nil _ (cons_ne_nil _ _))
      · split
        · exact h.imp id fun ⟨entry, hmem, hleads⟩ => ⟨entry, mem_cons_of_mem _ hmem, hleads⟩
        · exact h

theorem finds_visit (hdir : node.isDir) (hlead : name = ".git" ∨
    regenerableName name = false ∧ Leads node) : Finds (visit w folder name node) := by
  have hsym : node.isSymlink = false := by
    cases node with
    | symlink => cases hdir
    | _ => rfl
  rw [visit, hsym, if_neg Bool.false_ne_true, if_neg (not_not.mpr hdir)]
  split
  · exact .inl (append_ne_nil_of_right_ne_nil _ (cons_ne_nil _ _))
  · rename_i hgit
    obtain ⟨hreg, hleads⟩ := hlead.resolve_left hgit
    rw [hreg, if_pos Bool.false_ne_true]
    exact .inr ⟨(folder ++ [name], node), mem_cons_self, hleads⟩

theorem Finds.visitAll (h : Finds w) : Finds (visitAll w folder entries).1 := by
  induction entries generalizing w with
  | nil => exact h
  | cons entry rest ih =>
    rw [Disk.visitAll]
    split
    · exact h
    · exact ih (Finds.visit h)

theorem finds_visitAll (hmem : (name, node) ∈ entries)
    (hdir : node.isDir) (hlead : name = ".git" ∨ regenerableName name = false ∧ Leads node)
    (hdone : (visitAll w folder entries).2 = true) : Finds (visitAll w folder entries).1 := by
  induction entries generalizing w with
  | nil => cases hmem
  | cons entry rest ih =>
    rw [visitAll] at hdone ⊢
    split at hdone
    · cases hdone
    · rename_i hcap
      rw [if_neg hcap]
      rcases mem_cons.mp hmem with heq | hrest
      · obtain ⟨rfl, rfl⟩ := Prod.mk.inj heq
        exact Finds.visitAll (finds_visit hdir hlead)
      · exact ih hrest hdone

theorem Leads.entry (h : Leads (.dir entries)) :
    ∃ name child, (name, child) ∈ entries ∧ child.isDir ∧
      (name = ".git" ∨ regenerableName name = false ∧ Leads child) := by
  obtain ⟨rest, hnames, hat⟩ := h
  cases rest with
  | nil =>
    rw [nil_append, Node.at_] at hat
    split at hat
    · cases hat
    · rename_i entry hfind
      have hid := List.find?_some hfind
      have hname : entry.1 = ".git" := of_decide_eq_true hid
      exact ⟨entry.1, entry.2, mem_of_find?_eq_some hfind, hat, .inl hname⟩
  | cons name rest =>
    rw [cons_append, Node.at_] at hat
    split at hat
    · cases hat
    · rename_i entry hfind
      have hid := List.find?_some hfind
      have hname : entry.1 = name := of_decide_eq_true hid
      refine ⟨entry.1, entry.2, mem_of_find?_eq_some hfind, ?_, .inr ⟨?_, rest, ?_, hat⟩⟩
      · -- a node with something below it is a folder
        cases hchild : entry.2 with
        | dir _ | locked _ => rfl
        | file | symlink =>
          rw [hchild] at hat
          cases rest <;> cases hat
      · rw [hname]
        exact hnames name mem_cons_self
      · exact fun n hn => hnames n (mem_cons_of_mem _ hn)

theorem leads_isDir (h : Leads node) : node.isDir := by
  obtain ⟨rest, -, hat⟩ := h
  cases node with
  | dir _ | locked _ => rfl
  | file | symlink => cases rest <;> cases hat

/-- **A search that finishes has found what it reaches.** -/
theorem walk_finds {folders : Nat} (h : Finds w) (hdone : (walk folders w).2 = true) :
    (walk folders w).1 ≠ [] := by
  induction folders generalizing w with
  | zero =>
    rcases h with hhits | ⟨entry, hmem, -⟩
    · exact hhits
    · rw [walk, List.isEmpty_iff] at hdone
      rw [hdone] at hmem
      cases hmem
  | succ folders ih =>
    rw [walk] at hdone ⊢
    split
    · rename_i hstack
      rcases h with hhits | ⟨entry, hmem, -⟩
      · exact hhits
      · rw [hstack] at hmem
        cases hmem
    · rename_i folder node stack hstack
      rw [hstack] at hdone
      -- what the rest of the stack leads to is kept
      have hrest : ∀ w' : Walk, (w.hits ≠ [] → w'.hits ≠ []) →
          (∀ entry ∈ stack, entry ∈ w'.stack) → (Leads node → Finds w') → Finds w' := by
        intro w' hhits hstack' hnode
        rcases h with hh | ⟨entry, hmem, hleads⟩
        · exact .inl (hhits hh)
        · rw [hstack] at hmem
          rcases mem_cons.mp hmem with heq | hin
          · rw [heq] at hleads
            exact hnode hleads
          · exact .inr ⟨entry, hstack' entry hin, hleads⟩
      cases node with
      | locked reason =>
        exact ih (hrest _ (fun _ => append_ne_nil_of_right_ne_nil _ (cons_ne_nil _ _))
          (fun _ hin => hin) fun _ =>
            .inl (append_ne_nil_of_right_ne_nil _ (cons_ne_nil _ _))) hdone
      | file | symlink =>
        exact ih (hrest _ id (fun _ hin => hin) fun hleads => by cases leads_isDir hleads) hdone
      | dir entries =>
        dsimp only at hdone ⊢
        generalize hall : visitAll { w with stack := stack } folder entries = result at hdone ⊢
        obtain ⟨left, done⟩ := result
        cases done with
        | false => cases hdone
        | true =>
          have hfinds : Finds left := by
            have hleft : left = (visitAll { w with stack := stack } folder entries).1 := by
              rw [hall]
            have hdone' : (visitAll { w with stack := stack } folder entries).2 = true := by
              rw [hall]
            rw [hleft]
            by_cases hleads : Leads (.dir entries)
            · obtain ⟨name, child, hmem, hdir, hlead⟩ := hleads.entry
              exact finds_visitAll hmem hdir hlead hdone'
            · refine Finds.visitAll (hrest _ id (fun _ hin => hin) fun h => absurd h hleads)
          exact ih hfinds hdone

/-- **The search names a `.git` folder it reaches**, or does not finish. -/
theorem findPrecious_finds (rest : Path) (hnames : ∀ name ∈ rest, regenerableName name = false)
    (hroot : ∀ name ∈ root.getLast?, regenerableName name = false)
    (hat : (fs.at_ (root ++ rest ++ [".git"])).any Node.isDir)
    (hdone : (findPrecious fs root).2 = true) : (findPrecious fs root).1 ≠ [] := by
  rw [append_assoc, Node.at_append] at hat
  rw [findPrecious] at hdone ⊢
  cases hnode : fs.at_ root with
  | none =>
    rw [hnode] at hat
    cases hat
  | some node =>
    rw [hnode] at hat hdone
    have hleads : Leads node := ⟨rest, hnames, hat⟩
    have hdir := leads_isDir hleads
    have hskip : ((some node).any Node.isSymlink ||
        regenerableName (root.getLast?.getD "")) = false := by
      rw [Bool.or_eq_false_iff]
      constructor
      · cases node with
        | symlink => cases hdir
        | _ => rfl
      · cases hlast : root.getLast? with
        | none => decide
        | some name => exact hroot name hlast
    rw [hskip, if_neg Bool.false_ne_true] at hdone ⊢
    cases node with
    | file | symlink => cases hdir
    | locked reason | dir entries => exact walk_finds (.inr ⟨_, mem_cons_self, hleads⟩) hdone

/-! ## What an allowed path has passed -/

theorem preciousUnder_nil {entries : List Path} (h : preciousUnder fs path entries = .ok []) :
    ∀ entry ∈ entries, (findPrecious fs (path ++ entry)).1 = [] ∧
      (findPrecious fs (path ++ entry)).2 = true := by
  induction entries with
  | nil => exact fun _ h => by cases h
  | cons first rest ih =>
    rw [preciousUnder] at h
    split at h
    · cases h
    · rename_i hits hfind
      cases hrest : preciousUnder fs path rest with
      | error sentence =>
        rw [hrest] at h
        cases h
      | ok more =>
        rw [hrest] at h
        obtain ⟨rfl, rfl⟩ := append_eq_nil_iff.mp (Except.ok.inj h)
        intro entry hmem
        rcases mem_cons.mp hmem with rfl | hin
        · rw [hfind]
          exact ⟨rfl, rfl⟩
        · exact ih hrest entry hin

theorem checkoutRemovalRefusal_none (hat : (fs.at_ path).isSome)
    (h : checkoutRemovalRefusal fs git path = none) :
    git.status path path = some [] ∧ git.strandedCommits path = some 0 ∧
      ∃ ignored, git.ignoredEntries path = some ignored ∧
        preciousUnder fs path ignored = .ok [] := by
  rw [checkoutRemovalRefusal,
    if_neg (by rw [Option.isSome_iff_ne_none] at hat; simpa using hat)] at h
  split at h
  · cases h
  · split at h
    · cases h
    · cases h
    · rename_i hloss
      rw [checkoutLoss] at hloss
      split at hloss
      · cases hloss
      · rename_i hdirty
        split at hloss
        · cases hloss
        · rename_i hstranded
          refine ⟨?_, ?_, ?_⟩
          · rw [isDirty] at hdirty
            split at hdirty
            · exact absurd rfl hdirty
            · rename_i lines hlines
              rw [hlines]
              simpa using hdirty
          · rw [hasStrandedCommits] at hstranded
            split at hstranded
            · exact absurd rfl hstranded
            · rename_i total htotal
              rw [htotal]
              simpa using hstranded
          · split at h
            · cases h
            · rename_i ignored hignored
              refine ⟨ignored, hignored, ?_⟩
              split at h
              · cases h
              · rename_i hnil
                exact hnil
              · cases h

theorem assessWorktree_ok {ref : WorktreeRef}
    (h : assessWorktree fs git ctx path ref = .ok verdict) :
    checkoutRemovalRefusal fs git path = none := by
  rw [assessWorktree] at h
  split at h
  · cases h
  · split at h
    · cases h
    · split at h
      · cases h
      · rename_i hnone
        exact hnone

theorem assessInTree_ok {tree : Path} {kind : DiskKind}
    (h : assessInTree fs git path tree root kind = .ok verdict)
    (hkind : regenerableKind path root = none) :
    (findPrecious fs path).1 = [] ∧ (findPrecious fs path).2 = true := by
  rw [assessInTree] at h
  split at h
  · cases h
  · split at h
    · cases h
    · split at h
      · cases h
      · split at h
        · cases h
        · rw [hkind, Option.isNone_none, if_pos rfl] at h
          split at h
          · cases h
          · rename_i hfind
            rw [hfind]
            exact ⟨rfl, rfl⟩
          · cases h

theorem bind_ok {α β : Type} {x : Except String α} {f : α → Except String β} {v : β}
    (h : (x >>= f) = .ok v) : ∃ a, x = .ok a ∧ f a = .ok v := by
  cases x with
  | error reason => cases h
  | ok a => exact ⟨a, rfl, h⟩

theorem checkShape_ok {path' : Path} (h : checkShape fs (some path) = .ok (path', node)) :
    path' = path ∧ fs.at_ path = some node := by
  rw [checkShape] at h
  split at h
  · cases h
  · split at h
    · cases h
    · rename_i found hfound
      split at h
      · cases h
      · obtain ⟨rfl, rfl⟩ := Prod.mk.inj (Except.ok.inj h)
        exact ⟨rfl, hfound⟩

theorem checkProtected_ok (h : checkProtected ctx path = .ok ()) :
    ∀ guarded ∈ ctx.isProtected, ¬ path <+: guarded := by
  intro guarded hmem hpre
  rw [checkProtected] at h
  split at h
  · cases h
  · rename_i hnone
    exact absurd ( isPrefixOf_iff_prefix.mpr hpre) (List.find?_eq_none.mp hnone guarded hmem)

theorem checkInUse_ok (h : checkInUse ctx path = .ok ()) :
    ∃ processes, ctx.processCwds = some processes ∧
      ∀ process ∈ processes, ¬ path <+: process.2.2 := by
  rw [checkInUse] at h
  split at h
  · cases h
  · rename_i processes hprocesses
    refine ⟨processes, hprocesses, fun process hmem hpre => ?_⟩
    dsimp only at h
    split at h
    · cases h
    · rename_i hnone
      rw [not_not, map_eq_nil_iff, filter_eq_nil_iff] at hnone
      exact hnone process hmem ( isPrefixOf_iff_prefix.mpr hpre)

theorem scanRootFor_ok {roots : List Path} (h : scanRootFor ctx path roots = .ok root) :
    root <+: path ∧ (path = root → (ctx.ref path).isSome) := by
  induction roots with
  | nil => cases h
  | cons first rest ih =>
    rw [scanRootFor] at h
    split at h
    · rename_i heq
      split at h
      · rename_i hany
        obtain rfl := Except.ok.inj h
        refine ⟨heq ▸ prefix_refl _, fun _ => ?_⟩
        cases href : ctx.ref path with
        | none =>
          rw [href] at hany
          cases hany
        | some ref => rfl
      · cases h
    · rename_i hne
      split at h
      · rename_i hrel
        obtain rfl := Except.ok.inj h
        exact ⟨ isPrefixOf_iff_prefix.mp hrel, fun heq => absurd heq hne⟩
      · exact ih h

/-- **What an allowed path has passed.** -/
theorem judge_ok (h : judge fs git ctx (some path) = .ok verdict) :
    (fs.at_ path).isSome ∧ checkProtected ctx path = .ok () ∧ checkInUse ctx path = .ok () ∧
      ∃ root, scanRootFor ctx path ctx.roots = .ok root ∧
        ((∃ ref, worktreeAt fs git ctx path = .ok (some ref) ∧
            checkoutRemovalRefusal fs git path = none) ∨
          worktreeAt fs git ctx path = .ok none ∧ (regenerableKind path root = none →
            (findPrecious fs path).1 = [] ∧ (findPrecious fs path).2 = true)) := by
  rw [judge] at h
  obtain ⟨⟨path', node⟩, hshape, hrest⟩ := bind_ok h
  obtain ⟨rfl, hat⟩ := checkShape_ok hshape
  obtain ⟨root, hroot, hrest⟩ := bind_ok hrest
  obtain ⟨⟨⟩, hprotected, hrest⟩ := bind_ok hrest
  obtain ⟨⟨⟩, huse, hrest⟩ := bind_ok hrest
  obtain ⟨ref, hwt, h⟩ := bind_ok hrest
  refine ⟨by rw [hat]; rfl, hprotected, huse, root, hroot, ?_⟩
  cases ref with
  | some ref => exact .inl ⟨ref, hwt, assessWorktree_ok h⟩
  | none =>
    refine .inr ⟨hwt, fun hkind => ?_⟩
    cases htree : containingTree git ctx path' node with
    | some tree =>
      simp only [htree] at h
      exact assessInTree_ok h hkind
    | none =>
      -- outside git only a regenerable name is let through
      have hnot : (if node.isDir then DiskKind.directory else .file) ∉ regenerableKinds := by
        split <;> decide
      simp only [htree, hkind, Option.getD_none, if_neg hnot] at h
      cases h

/-! ## Working trees below a path -/

structure WorkingTree where
  path : Path
  /-- It has uncommitted or untracked changes. -/
  dirty : Bool
  /-- HEAD is a commit that no ref reaches. -/
  stranded : Bool
  /-- The submodules its index records. -/
  gitlinks : List Path := []

def WorkingTree.holdsWork (tree : WorkingTree) : Bool := tree.dirty || tree.stranded

/-- Git answers truthfully for the working trees that are there. In `listed` it does so of a
    checkout and its linked worktrees only: the list that a submodule is asked for names the
    directory its objects are kept in, not the submodule. -/
structure Git.Truthful (fs : Node) (git : Git) (trees : List WorkingTree) : Prop where
  status : ∀ tree ∈ trees, tree.dirty → git.status tree.path tree.path ≠ some []
  stranded : ∀ tree ∈ trees, tree.stranded → git.strandedCommits tree.path ≠ some 0
  /-- A tree inside another is a submodule of it or in one, shows in its status, or lies
      in what it ignores. -/
  nested : ∀ outer ∈ trees, ∀ tree ∈ trees, outer.path <+: tree.path → outer.path ≠ tree.path →
    (∀ link ∈ outer.gitlinks, ¬ link <+: tree.path) →
    git.status outer.path outer.path ≠ some [] ∨ ∀ entries,
      git.ignoredEntries outer.path = some entries →
      ∃ entry ∈ entries, entry ≠ [] ∧ outer.path ++ entry <+: tree.path
  listed : ∀ tree ∈ trees, ∀ refs, git.worktreeList tree.path = some refs →
    ∃ ref ∈ refs, ref.path = tree.path

/-- A path is marked as a linked worktree: the scan knows it, or its `.git` is a file. -/
def Marked (fs : Node) (ctx : SafetyContext) (path : Path) : Prop :=
  (ctx.ref path).isSome ∨ (fs.at_ (path ++ [".git"])).any Node.isFile

/-- The checks of a path can see a working tree: it is the path itself, marked as a linked worktree;
    or its `.git` is a folder, no folder from the scan root down to it has a regenerable name, and a
    path that is marked is a working tree that does not record it as a submodule. -/
def InSight (fs : Node) (ctx : SafetyContext) (trees : List WorkingTree) (path root : Path)
    (tree : WorkingTree) : Prop :=
  (tree.path = path ∧ Marked fs ctx path) ∨ (fs.at_ (tree.path ++ [".git"])).any Node.isDir ∧
      (∀ name ∈ tree.path.drop root.length, regenerableName name = false) ∧
      (Marked fs ctx path → ∃ outer ∈ trees, outer.path = path ∧
        ∀ link ∈ outer.gitlinks, ¬ link <+: tree.path)

/-- A path that is judged as no worktree is not marked, where git answers truthfully of a
    tree at it. -/
theorem worktreeAt_none {trees : List WorkingTree} (truthful : git.Truthful fs trees)
    {tree : WorkingTree} (hmem : tree ∈ trees) (hpath : tree.path = path)
    (h : worktreeAt fs git ctx path = .ok none) : ¬ Marked fs ctx path := by
  rw [worktreeAt] at h
  cases href : ctx.ref path with
  | some ref =>
    rw [href] at h
    cases h
  | none =>
    simp only [href] at h
    rw [discoverWorktree] at h
    split at h
    · rename_i hfile
      rintro (hsome | hgit)
      · rw [href] at hsome
        cases hsome
      · exact hfile hgit
    · split at h
      · cases h
      · rename_i refs hrefs
        obtain ⟨ref, href', heq⟩ := truthful.listed tree hmem refs (hpath ▸ hrefs)
        cases hfind : refs.find? (·.path = path) with
        | none =>
          have := List.find?_eq_none.mp hfind ref href'
          exact absurd (decide_eq_true (heq.trans hpath)) this
        | some found =>
          rw [hfind] at h
          cases h

theorem worktreeAt_some {ref : WorktreeRef} (h : worktreeAt fs git ctx path = .ok (some ref)) :
    Marked fs ctx path := by
  rw [worktreeAt] at h
  cases href : ctx.ref path with
  | some ref =>
    rw [Marked, href]
    exact .inl rfl
  | none =>
    simp only [href] at h
    rw [discoverWorktree] at h
    split at h
    · cases h
    · rename_i hfile
      exact .inr (not_not.mp hfile)

theorem regenerableKind_none (h : ∀ name ∈ path.drop root.length, regenerableName name = false) :
    regenerableKind path root = none := by
  rw [regenerableKind]
  split
  · rfl
  · have hfind : (path.drop root.length).reverse.find? regenerableName = none :=
      List.find?_eq_none.mpr fun name hname => by
        rw [h name (mem_reverse.mp hname)]
        exact Bool.false_ne_true
    rw [hfind]
    rfl

theorem drop_root {rest : Path} (hroot : root <+: path) :
    (path ++ rest).drop root.length = path.drop root.length ++ rest :=
  drop_append_of_le_length hroot.length_le

theorem getLast_below {rest : Path} (hrest : rest ≠ []) (hroot : root <+: path) :
    ∀ name ∈ (path ++ rest).getLast?, name ∈ (path ++ rest).drop root.length := by
  intro name hname
  rw [List.getLast?_append_of_ne_nil _ hrest] at hname
  rw [drop_root hroot]
  exact mem_append_right _ (mem_of_getLast? hname)

/-- **An allowed path holds no work that its checks can see.** -/
theorem InSight.not_holdsWork {trees : List WorkingTree}
    (truthful : git.Truthful fs trees) (h : judge fs git ctx (some path) = .ok verdict)
    (hroot : scanRootFor ctx path ctx.roots = .ok root) {tree : WorkingTree}
    (hmem : tree ∈ trees) (hbelow : path <+: tree.path)
    (hsight : InSight fs ctx trees path root tree) : tree.holdsWork = false := by
  obtain ⟨hat, -, -, root', hroot', hcases⟩ := judge_ok h
  obtain rfl : root = root' := Except.ok.inj (hroot.symm.trans hroot')
  obtain ⟨hpre, hself⟩ := scanRootFor_ok hroot
  by_contra hwork
  rw [Bool.not_eq_false, WorkingTree.holdsWork, Bool.or_eq_true] at hwork
  obtain ⟨rest, hrest⟩ := hbelow
  rcases hcases with ⟨ref, hwt, hnone⟩ | ⟨hwt, hfind⟩
  · -- a linked worktree: git speaks for it, and the search for what it ignores
    obtain ⟨hstatus, hstranded, ignored, hignored, hprecious⟩ :=
      checkoutRemovalRefusal_none hat hnone
    by_cases heq : tree.path = path
    · rcases hwork with hdirty | hlost
      · exact truthful.status tree hmem hdirty (heq ▸ hstatus)
      · exact truthful.stranded tree hmem hlost (heq ▸ hstranded)
    · obtain ⟨hdir, hnames, houter⟩ := hsight.resolve_left fun h => heq h.1
      obtain ⟨outer, houtermem, rfl, hlinks⟩ := houter (worktreeAt_some hwt)
      rcases truthful.nested outer houtermem tree hmem ⟨rest, hrest⟩ (Ne.symm heq) hlinks with
        hdirty | hentries
      · exact hdirty hstatus
      · obtain ⟨entry, hentry, hne, below, hbelow⟩ := hentries ignored hignored
        obtain ⟨hhits, hdone⟩ := preciousUnder_nil hprecious entry hentry
        refine findPrecious_finds below (fun name hname => ?_) (fun name hname => ?_) ?_
          hdone hhits
        · refine hnames name ?_
          rw [← hbelow, append_assoc, drop_root hpre]
          exact mem_append_right _ (mem_append_right _ hname)
        · refine hnames name ?_
          rw [← hbelow, drop_root (hpre.trans (prefix_append _ _))]
          exact mem_append_left _ (getLast_below hne hpre name hname)
        · rw [hbelow]
          exact hdir
  · -- no worktree: only the search looks below
    have hnotmarked : tree.path = path → ¬ Marked fs ctx path :=
      fun heq => worktreeAt_none truthful hmem heq hwt
    obtain ⟨hdir, hnames, -⟩ := hsight.resolve_left fun h => hnotmarked h.1 h.2
    have hpathnames : ∀ name ∈ path.drop root.length, regenerableName name = false := by
      intro name hname
      refine hnames name ?_
      rw [← hrest, drop_root hpre]
      exact mem_append_left _ hname
    obtain ⟨hhits, hdone⟩ := hfind (regenerableKind_none hpathnames)
    refine findPrecious_finds rest (fun name hname => ?_) (fun name hname => ?_) ?_
      hdone hhits
    · refine hnames name ?_
      rw [← hrest, drop_root hpre]
      exact mem_append_right _ hname
    · -- the path is not the scan root: a root that is judged is a listed worktree
      obtain ⟨above, habove⟩ := hpre
      have hne : above ≠ [] := by
        rintro rfl
        rw [append_nil] at habove
        have hsome := hself habove.symm
        rw [worktreeAt] at hwt
        cases href : ctx.ref path with
        | none =>
          rw [href] at hsome
          cases hsome
        | some ref =>
          rw [href] at hwt
          cases hwt
      rw [← habove] at hname hpathnames
      exact hpathnames name (getLast_below hne (prefix_refl root) name hname)
    · rw [hrest]
      exact hdir

/-- What trashing a path must not take: a protected path, a process's working directory, a
    working tree that holds work. -/
structure Spares (ctx : SafetyContext) (trees : List WorkingTree) (path : Path) : Prop where
  unprotected : ∀ guarded ∈ ctx.isProtected, ¬ path <+: guarded
  unused : ∃ processes, ctx.processCwds = some processes ∧
    ∀ process ∈ processes, ¬ path <+: process.2.2
  workless : ∀ tree ∈ trees, path <+: tree.path → tree.holdsWork = false

/-- Every working tree below a path that holds work is in sight of its checks. -/
def WorkInSight (fs : Node) (ctx : SafetyContext) (trees : List WorkingTree) (path : Path) : Prop :=
  ∀ root, scanRootFor ctx path ctx.roots = .ok root → ∀ tree ∈ trees, path <+: tree.path →
    tree.holdsWork → InSight fs ctx trees path root tree

/-- A repository that ignores `trees`, which holds a linked worktree, and `build`, which
    holds a repository of its own. -/
def sampleTree : Node :=
  .dir [("w", .dir [("repo", .dir [(".git", .dir []), ("main.py", .file),
    ("trees", .dir [("x", .dir [(".git", .file), ("wip.py", .file)])]),
    ("build", .dir [("lib", .dir [(".git", .dir []), ("wip.py", .file)])]),
    ("dist", .dir [("out.js", .file)])])])]

def sampleRepo : Path := ["w", "repo"]

/-- Both nested working trees hold an untracked file. -/
def sampleTrees : List WorkingTree :=
  [{ path := sampleRepo, dirty := false, stranded := false },
   { path := sampleRepo ++ ["trees", "x"], dirty := true, stranded := false },
   { path := sampleRepo ++ ["build", "lib"], dirty := true, stranded := false }]

def sampleRefs : List WorktreeRef :=
  [{ path := sampleRepo, repoRoot := sampleRepo, branch := "main", isMain := true },
   { path := sampleRepo ++ ["trees", "x"], repoRoot := sampleRepo, branch := "x"
     isMain := false }]

def sampleGit : Git where
  worktreeList path :=
    if path = sampleRepo ++ ["build", "lib"] then
      some [{ path := path, repoRoot := path, branch := "main", isMain := true }]
    else some sampleRefs
  showToplevel _ := some sampleRepo
  mainWorkingTree _ := some sampleRepo
  lsFiles _ _ := some []
  status tree path :=
    if tree = path ∧ tree ≠ sampleRepo then some ["?? wip.py"] else some []
  ignoredEntries tree :=
    if tree = sampleRepo then some [["trees"], ["build"], ["dist"]] else some []
  strandedCommits _ := some 0

def sampleContext : SafetyContext where
  roots := [sampleRepo]
  worktrees := sampleRefs.map fun ref => (ref.path, ref)
  isProtected := [[], ["home"], sampleRepo, ["home", ".loregarden"]]
  loregardenData := ["home", ".loregarden"]
  processCwds := some [("1", "zsh", ["home"]), ("2", "agent", sampleRepo)]

theorem sampleGit_truthful : sampleGit.Truthful sampleTree sampleTrees where
  status tree hmem hdirty := by
    simp only [sampleTrees, mem_cons, not_mem_nil, or_false] at hmem
    rcases hmem with rfl | rfl | rfl
    · cases hdirty
    · decide
    · decide
  stranded tree hmem hlost := by
    simp only [sampleTrees, mem_cons, not_mem_nil, or_false] at hmem
    rcases hmem with rfl | rfl | rfl <;> cases hlost
  nested outer houter tree hmem hbelow hne _ := by
    simp only [sampleTrees, mem_cons, not_mem_nil, or_false] at houter hmem
    rcases houter with rfl | rfl | rfl
    · refine .inr fun entries hentries => ?_
      obtain rfl := Option.some.inj hentries
      rcases hmem with rfl | rfl | rfl
      · exact absurd rfl hne
      · exact ⟨["trees"], by decide, by decide, by decide⟩
      · exact ⟨["build"], by decide, by decide, by decide⟩
    · exact .inl (by decide)
    · exact .inl (by decide)
  listed tree hmem refs hrefs := by
    simp only [sampleTrees, mem_cons, not_mem_nil, or_false] at hmem
    rcases hmem with rfl | rfl | rfl
    · obtain rfl := Option.some.inj hrefs
      exact ⟨_, mem_cons_self, rfl⟩
    · obtain rfl := Option.some.inj hrefs
      exact ⟨_, mem_cons_of_mem _ mem_cons_self, rfl⟩
    · obtain rfl := Option.some.inj hrefs
      exact ⟨_, mem_cons_self, rfl⟩

end Loregarden.Disk
