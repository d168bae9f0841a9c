import XKernel.Lib.Result
/-!
# Pathname lookup (`kvfs`, `namei.rs`)

A path is a dentry seen through a mount. `..` stays where it is at the process root and climbs with
`Path::parent` elsewhere. At the root of a mount that climb goes on from the mountpoint, whatever the
mountpoint is: if it is the process root, the climb passes it.
-/

namespace XKernel.Namei

open Lib Relation

abbrev Name := List Char

inductive VfsError
  | notFound | notADirectory | filesystemLoop
  /-- From the filesystem or the permission check. -/
  | other (errno : Nat)

structure Path where
  mnt : Nat
  dentry : Nat
  deriving DecidableEq

/-- Where a magic link leads: it may be another magic link. -/
inductive MagicLink
  | path (r : Except VfsError Path)
  | link (next : MagicLink)

/-- What a lookup reads, for the credentials of one caller. The mounts are linked as `graft_tree`,
`unmount` and `pivot_root` leave them: the mount on top of a dentry has its location there. -/
structure Vfs where
  parent : Nat → Option Nat
  /-- A child, from the cache or the directory. -/
  lookup : Nat → Name → Except VfsError Nat
  canLookup : Nat → Bool
  isSymlink : Nat → Bool
  readLink : Nat → Except VfsError Name
  magicLink : Nat → Option MagicLink
  permission : Nat → Except VfsError Unit
  mntRoot : Nat → Nat
  location : Nat → Option Path
  childMountAt : Nat → Nat → Option Nat
  /-- The height of a dentry in its filesystem, and of a mount in the tree of mounts. -/
  depth : Nat → Nat
  level : Nat → Nat
  levels : Nat
  lookup_parent : ∀ {d name c}, lookup d name = .ok c → parent c = some d
  parent_depth : ∀ {d e}, parent d = some e → depth e < depth d
  child_location : ∀ {m d c}, childMountAt m d = some c → location c = some ⟨m, d⟩
  location_level : ∀ {m l}, location m = some l → level l.mnt < level m ∧ level m < levels
  location_within : ∀ {m l}, location m = some l → ReflTransGen (fun d e => parent d = some e) l.dentry (mntRoot l.mnt)

structure LookupFlags where
  followFinal : Bool := false
  emptyPath : Bool := false
  noMagicLinks : Bool := false
  directory : Bool := false

inductive Component
  | root | dot | dotdot
  | norm (name : Name)
  deriving DecidableEq

def Component.of (name : Name) : Component :=
  if name = ['.'] then .dot else if name = ['.', '.'] then .dotdot else .norm name

/-- What `next_path_component` gives, call after call. -/
def pathComponents (pathname : Name) : List Component :=
  match pathname.splitOn '/' with
  | [] => []
  | first :: rest => (if first = [] then .root else .of first) :: (rest.filter (· ≠ [])).map .of

/-- The links followed so far. -/
structure Links where
  totalLinkCount : Nat
  /-- Some of them was a magic link. -/
  magic : Bool

abbrev Lookup := Path → Name → LookupFlags → Links → Except VfsError (Path × Links)

def defaultMaxLinks : Nat := 40

def reserveLinkFollow (l : Links) : Except VfsError Links := do
  failIf (l.totalLinkCount ≥ defaultMaxLinks) .filesystemLoop
  return { l with totalLinkCount := l.totalLinkCount + 1 }

def followMagicLink : MagicLink → Links → Except VfsError (Path × Links)
  | .path r, l => do
    let l ← reserveLinkFollow l
    let p ← r
    return (p, { l with magic := true })
  | .link next, l => do
    let l ← reserveLinkFollow l
    followMagicLink next l

variable (v : Vfs)

def Path.parent (p : Path) : Option Path :=
  if p.dentry ≠ v.mntRoot p.mnt then (v.parent p.dentry).map (Path.mk p.mnt)
  else
    match _h : v.location p.mnt with
    | none => none
    | some l => l.parent
termination_by v.level p.mnt
decreasing_by exact (v.location_level _h).1

def Path.resolveFinalMount (p : Path) : Path :=
  match _h : v.childMountAt p.mnt p.dentry with
  | none => p
  | some m => Path.resolveFinalMount ⟨m, v.mntRoot m⟩
termination_by v.levels - v.level p.mnt
decreasing_by
  have := v.location_level (v.child_location _h)
  simp only at this ⊢
  omega

namespace Vfs

def followSymlink (pathLookupat : Lookup) (containingDir link : Path) (flags : LookupFlags) (l : Links) :
    Except VfsError (Path × Links) := do
  let l ← reserveLinkFollow l
  let target ← v.readLink link.dentry
  failIf (target = []) .notFound
  pathLookupat containingDir target { flags with followFinal := true } l

def stepInto (pathLookupat : Lookup) (containingDir next : Path) (more : Bool) (flags : LookupFlags) (l : Links) :
    Except VfsError (Path × Links) :=
  match v.magicLink next.dentry with
  | some m =>
    if flags.noMagicLinks then .error .filesystemLoop
    else if more || flags.followFinal then followMagicLink m l
    else .ok (next, l)
  | none =>
    if v.isSymlink next.dentry && (more || flags.followFinal) then
      v.followSymlink pathLookupat containingDir next flags l
    else .ok (next, l)

def walkComponent (pathLookupat : Lookup) (path : Path) (name : Name) (more : Bool) (flags : LookupFlags) (l : Links) :
    Except VfsError (Path × Links) := do
  let d ← v.lookup path.dentry name
  v.stepInto pathLookupat path (Path.resolveFinalMount v ⟨path.mnt, d⟩) more flags l

def handleDots (root path : Path) : Component → Path
  | .root => root
  | .dotdot => if path = root then path else (path.parent v).getD root
  | .dot | .norm _ => path

/-- The directory of a component is searched, which the `/` at the start does not need. -/
def mayLookup (c : Component) (path : Path) : Except VfsError Unit :=
  if c = .root then .ok ()
  else do
    failIf (v.canLookup path.dentry = false) .notADirectory
    v.permission path.dentry

/-- The last component is left to `path_lookupat`. -/
def linkPathWalk (pathLookupat : Lookup) (root : Path) (flags : LookupFlags) :
    List Component → Path → Links → Except VfsError (Path × Component × Links)
  | [], path, l => .ok (path, .root, l)
  | c :: rest, path, l => do
    v.mayLookup c path
    if rest = [] then return (path, c, l)
    match c with
    | .norm name =>
      let (path, l) ← v.walkComponent pathLookupat path name true flags l
      linkPathWalk pathLookupat root flags rest path l
    | c => linkPathWalk pathLookupat root flags rest (v.handleDots root path c) l

def completePathLookup (flags : LookupFlags) (path : Path) (l : Links) : Except VfsError (Path × Links) := do
  failIf (flags.directory = true ∧ v.canLookup path.dentry = false) .notADirectory
  return (path, l)

/-- `path_lookupat` over the nested lookup of a link target. -/
def lookupWith (pathLookupat : Lookup) (root : Path) : Lookup := fun base pathname flags l =>
  if pathname = [] then
    if flags.emptyPath then v.completePathLookup flags base l else .error .notFound
  else do
    let start := if pathname.head? = some '/' then root else base
    let (path, last, l) ← v.linkPathWalk pathLookupat root flags (pathComponents pathname) start l
    match last with
    | .norm name =>
      let flags := if pathname.getLast? = some '/' then { flags with followFinal := true, directory := true } else flags
      let (path, l) ← v.walkComponent pathLookupat path name false flags l
      v.completePathLookup flags path l
    | last => v.completePathLookup flags (v.handleDots root path last) l

/-- A nested lookup has one link less to follow, so there are at most as many levels as links. -/
def pathLookupat (root : Path) : Nat → Lookup
  | 0 => v.lookupWith (fun _ _ _ _ => .error .filesystemLoop) root
  | n + 1 => v.lookupWith (pathLookupat root n) root

/-! ## At or below the process root -/

/-- One step up: to the dentry above, or from the root of a mount to its mountpoint. -/
def up (p : Path) : Option Path :=
  if p.dentry ≠ v.mntRoot p.mnt then (v.parent p.dentry).map (Path.mk p.mnt) else v.location p.mnt

def Below (root p : Path) : Prop := ReflTransGen (fun p q => v.up p = some q) p root

/-- The dentry of a path is in the tree of its mount. -/
def Within (p : Path) : Prop := ReflTransGen (fun d e => v.parent d = some e) p.dentry (v.mntRoot p.mnt)

/-- A mount on the root, or on the root of such a mount. -/
inductive Over (root : Path) : Nat → Prop
  | on {m} : v.location m = some root → Over root m
  | above {m n} : v.location n = some ⟨m, v.mntRoot m⟩ → Over root m → Over root n

/-- The caller may look up a name in the directory. -/
def Searchable (d : Nat) : Prop := v.canLookup d = true ∧ v.permission d = .ok ()

/-- Every lookup that succeeds without a magic link stays at or below the root. -/
def Contained (root : Path) : Prop := ∀ base pathname flags p l, v.Within base → v.Below root base →
  v.pathLookupat root defaultMaxLinks base pathname flags ⟨0, false⟩ = .ok (p, l) → l.magic = false → v.Below root p

variable {v} {root p q : Path} {look : Lookup} {flags : LookupFlags} {l l' : Links} {c : Component}

theorem lt_of_above (h : TransGen (fun p q => v.up p = some q) p q) :
    toLex (v.level q.mnt, v.depth q.dentry) < toLex (v.level p.mnt, v.depth p.dentry) := by
  have hup : ∀ {p q : Path}, v.up p = some q →
      toLex (v.level q.mnt, v.depth q.dentry) < toLex (v.level p.mnt, v.depth p.dentry) := by
    intro p q h
    unfold up at h
    split at h
    · obtain ⟨e, he, rfl⟩ := Option.map_eq_some_iff.1 h
      exact Prod.Lex.right _ (v.parent_depth he)
    · exact Prod.Lex.left _ _ (v.location_level h).1
  induction h with
  | single h => exact hup h
  | tail _ h ih => exact (hup h).trans ih

theorem parent_above (h : p.parent v = some q) : TransGen (fun p q => v.up p = some q) p q := by
  fun_induction Path.parent v p with
  | case1 p hd => exact .single (by rw [up, if_pos hd, h])
  | case2 => cases h
  | case3 p hd l hl ih => exact .head (by rw [up, if_neg hd, hl]) (ih h)

theorem Below.up (h : v.Below root p) (hne : p ≠ root) (hq : v.up p = some q) : v.Below root q := by
  obtain ⟨r, hr, hb⟩ := (ReflTransGen.cases_head_iff.1 h).resolve_left hne
  cases hq.symm.trans hr
  exact hb

/-- A path of the tree, at or below the root. -/
def Inside (v : Vfs) (root p : Path) : Prop := v.Within p ∧ v.Below root p

/-- The climb of `..` stays inside, unless it starts at the root of a mount that lies over the root. -/
theorem Inside.parent (hp : v.Inside root p) (hne : p ≠ root)
    (hover : p.dentry = v.mntRoot p.mnt → v.Over root p.mnt → root.parent v = none) (h : p.parent v = some q) :
    v.Inside root q := by
  fun_induction Path.parent v p with
  | case1 p hd =>
    obtain ⟨e, he, rfl⟩ := Option.map_eq_some_iff.1 h
    obtain ⟨e', he', hw⟩ := (ReflTransGen.cases_head_iff.1 hp.1).resolve_left hd
    cases he.symm.trans he'
    exact ⟨hw, hp.2.up hne (by rw [up, if_pos hd, h])⟩
  | case2 => cases h
  | case3 p hd l hl ih =>
    have hb := hp.2.up hne (by rw [up, if_neg hd, hl])
    by_cases hroot : l = root
    · rw [hroot] at hl h
      rw [hover (not_not.1 hd) (.on hl)] at h
      cases h
    · refine ih ⟨v.location_within hl, hb⟩ hroot (fun hd' ho => hover (not_not.1 hd) (.above ?_ ho)) h
      rw [hl, ← hd']

theorem Inside.child {name : Name} {d : Nat} (hp : v.Inside root p) (h : v.lookup p.dentry name = .ok d) :
    v.Inside root ⟨p.mnt, d⟩ := by
  have hpar := v.lookup_parent h
  have hdepth : ∀ {d e}, ReflTransGen (fun d e => v.parent d = some e) d e → v.depth e ≤ v.depth d := by
    intro d e h
    induction h with
    | refl => exact le_rfl
    | tail _ h ih => exact (v.parent_depth h).le.trans ih
  have hne : d ≠ v.mntRoot p.mnt := by
    rintro rfl
    exact absurd (hdepth hp.1) (not_le.2 (v.parent_depth hpar))
  refine ⟨.head hpar hp.1, .head ?_ hp.2⟩
  rw [up, if_pos hne, hpar]
  rfl

theorem Inside.resolveFinalMount (hp : v.Inside root p) : v.Inside root (p.resolveFinalMount v) := by
  fun_induction Path.resolveFinalMount v p with
  | case1 => exact hp
  | case2 p m h ih =>
    refine ih ⟨.refl, .head ?_ hp.2⟩
    rw [up, if_neg (not_not.2 rfl), v.child_location h]

/-! ## The walk -/

/-- A lookup that starts inside ends inside, if no magic link is followed. -/
def Safe (v : Vfs) (root : Path) (look : Lookup) : Prop := ∀ {base pathname flags l p l'},
  (l.magic = false → v.Inside root base) → look base pathname flags l = .ok (p, l') → l'.magic = false →
  l.magic = false ∧ v.Inside root p

theorem followMagicLink_magic {m : MagicLink} (h : followMagicLink m l = .ok (p, l')) : l'.magic = true := by
  induction m generalizing l with
  | path =>
    obtain ⟨l1, -, h⟩ := bind_eq_ok.1 h
    obtain ⟨q, -, h⟩ := bind_eq_ok.1 h
    cases h
    rfl
  | link next ih =>
    obtain ⟨l1, -, h⟩ := bind_eq_ok.1 h
    exact ih h

theorem walkComponent_inside {name : Name} {more : Bool} (hs : v.Safe root look)
    (hp : l.magic = false → v.Inside root p) (h : v.walkComponent look p name more flags l = .ok (q, l'))
    (hm : l'.magic = false) :
    l.magic = false ∧ v.Inside root q := by
  obtain ⟨d, hd, h⟩ := bind_eq_ok.1 h
  have hnext : l.magic = false → _ := fun hl => ((hp hl).child hd).resolveFinalMount
  unfold stepInto at h
  split at h
  · split at h
    · cases h
    split at h
    · cases hm.symm.trans (followMagicLink_magic h)
    · cases h
      exact ⟨hm, hnext hm⟩
  · split at h
    · obtain ⟨l1, hl, h⟩ := bind_eq_ok.1 h
      obtain ⟨target, -, h⟩ := bind_eq_ok.1 h
      obtain ⟨-, h⟩ := failIf_bind.1 h
      obtain ⟨-, hl⟩ := failIf_bind.1 hl
      cases hl
      exact hs (l := { l with totalLinkCount := l.totalLinkCount + 1 }) hp h hm
    · cases h
      exact ⟨hm, hnext hm⟩

section

variable (hroot : v.Within root) (hclear : root.parent v = none ∨ ∀ m, v.Over root m → ¬ v.Searchable (v.mntRoot m))
include hroot hclear

theorem handleDots_inside (hp : v.Inside root p) (hc : c ≠ .root → v.Searchable p.dentry) :
    v.Inside root (v.handleDots root p c) := by
  have hr : v.Inside root root := ⟨hroot, .refl⟩
  cases c with
  | root => exact hr
  | dot | norm => exact hp
  | dotdot =>
    simp only [handleDots]
    split
    · exact hp
    rename_i hne
    cases hq : p.parent v with
    | none => exact hr
    | some =>
      refine hp.parent hne (fun hd ho => hclear.resolve_right fun hn => hn _ ho ?_) hq
      rw [← hd]
      exact hc nofun

/-- The directory of the last component is inside and was searched. -/
theorem linkPathWalk_inside (hs : v.Safe root look) (cs : List Component) (hp : l.magic = false → v.Inside root p)
    (h : v.linkPathWalk look root flags cs p l = .ok (q, c, l')) (hm : l'.magic = false) :
    l.magic = false ∧ v.Inside root q ∧ (c ≠ .root → v.Searchable q.dentry) := by
  induction cs generalizing p l with
  | nil =>
    cases h
    exact ⟨hm, hp hm, fun h => absurd rfl h⟩
  | cons c1 rest ih =>
    obtain ⟨_, hmay, h⟩ := bind_eq_ok.1 h
    have hc : c1 ≠ .root → v.Searchable p.dentry := by
      intro hc
      unfold mayLookup at hmay
      rw [if_neg hc, failIf_bind, Bool.not_eq_false] at hmay
      exact hmay
    split at h
    · cases h
      exact ⟨hm, hp hm, hc⟩
    split at h
    · obtain ⟨⟨p1, l1⟩, hw, h⟩ := bind_eq_ok.1 h
      have hstep := walkComponent_inside hs hp hw
      obtain ⟨hl1, hrest⟩ := ih (fun hl => (hstep hl).2) h
      exact ⟨(hstep hl1).1, hrest⟩
    · exact ih (fun hl => handleDots_inside hroot hclear (hp hl) hc) h

theorem lookupWith_safe (hs : v.Safe root look) : v.Safe root (v.lookupWith look root) := by
  intro base pathname flags l p l' hp h hm
  have hdone : ∀ {flags q l1}, v.completePathLookup flags q l1 = .ok (p, l') → p = q ∧ l' = l1 := by
    intro flags q l1 h
    obtain ⟨-, h⟩ := failIf_bind.1 h
    cases h
    exact ⟨rfl, rfl⟩
  unfold lookupWith at h
  split at h
  · split at h
    · obtain ⟨rfl, rfl⟩ := hdone h
      exact ⟨hm, hp hm⟩
    · cases h
  obtain ⟨⟨q, last, l1⟩, hwalk, h⟩ := bind_eq_ok.1 h
  have hstart : l.magic = false → v.Inside root (if pathname.head? = some '/' then root else base) := by
    intro hl
    split
    · exact ⟨hroot, .refl⟩
    · exact hp hl
  have hq := linkPathWalk_inside hroot hclear hs _ hstart hwalk
  simp only at h
  split at h
  · obtain ⟨⟨r, l2⟩, hw, h⟩ := bind_eq_ok.1 h
    obtain ⟨rfl, rfl⟩ := hdone h
    obtain ⟨hl1, hr⟩ := walkComponent_inside hs (fun hl => (hq hl).2.1) hw hm
    exact ⟨(hq hl1).1, hr⟩
  · obtain ⟨rfl, rfl⟩ := hdone h
    obtain ⟨hl, hin, hc⟩ := hq hm
    exact ⟨hl, handleDots_inside hroot hclear hin hc⟩

theorem pathLookupat_safe (n : Nat) : v.Safe root (v.pathLookupat root n) := by
  induction n with
  | zero => exact lookupWith_safe hroot hclear fun _ h => by cases h
  | succ n ih => exact lookupWith_safe hroot hclear ih

end

/-- `..` at the root of a mount over the root leads to where `..` at the root would lead. -/
theorem Over.parent {m : Nat} (h : v.Over root m) : Path.parent v ⟨m, v.mntRoot m⟩ = root.parent v ∧
    TransGen (fun p q => v.up p = some q) ⟨m, v.mntRoot m⟩ root := by
  have hup : ∀ m, v.up ⟨m, v.mntRoot m⟩ = v.location m := fun m => if_neg (not_not.2 rfl)
  induction h with
  | @on m hl =>
    refine ⟨?_, .single ((hup m).trans hl)⟩
    rw [Path.parent, if_neg (not_not.2 rfl)]
    split <;> simp_all
  | @above m n hl _ ih =>
    refine ⟨?_, .head ((hup n).trans hl) ih.2⟩
    rw [Path.parent, if_neg (not_not.2 rfl), ← ih.1]
    split <;> simp_all

theorem lookupWith_dotdot (hs : v.Searchable p.dentry) (hne : p ≠ root) :
    v.lookupWith look root p ['.', '.'] {} l = .ok ((p.parent v).getD root, l) := by
  have hmay : v.mayLookup .dotdot p = .ok () := failIf_bind.2 ⟨Bool.not_eq_false _ ▸ hs.1, hs.2⟩
  have hcs : pathComponents ['.', '.'] = [.dotdot] := rfl
  simp [lookupWith, hcs, linkPathWalk, hmay, handleDots, hne, completePathLookup, failIf]

/-- Lookups stay at or below the process root, if and only if it has no parent or the caller cannot search the root
directory of any mount stacked on it. -/
theorem contained_iff (v : Vfs) (root : Path) (hroot : v.Within root) :
    v.Contained root ↔ root.parent v = none ∨ ∀ m, v.Over root m → ¬ v.Searchable (v.mntRoot m) := by
  constructor
  · intro hcon
    by_contra hc
    rw [not_or] at hc
    obtain ⟨hq, hc⟩ := hc
    obtain ⟨q, hq⟩ := Option.ne_none_iff_exists'.1 hq
    refine hc fun m hm hs => ?_
    obtain ⟨hpar, hup⟩ := hm.parent
    have hne : (⟨m, v.mntRoot m⟩ : Path) ≠ root := fun he => lt_irrefl _ (lt_of_above (he ▸ hup))
    have hbelow := hcon ⟨m, v.mntRoot m⟩ _ _ _ _ .refl hup.to_reflTransGen (lookupWith_dotdot hs hne) rfl
    rw [hpar, hq] at hbelow
    exact lt_irrefl _ (lt_of_above ((parent_above hq).trans_left hbelow))
  · intro hclear base pathname flags p l hw hb h hm
    exact (pathLookupat_safe hroot hclear _ (fun _ => ⟨hw, hb⟩) h hm).2.2

end Vfs

/-- A directory `1` below the root `0` of the first mount, and a second mount at `1`, with the root `2`. -/
def sample (searchable : Bool) : Vfs where
  parent d := if d = 1 then some 0 else none
  lookup d name := if d = 0 ∧ name = ['a'] then .ok 1 else .error .notFound
  canLookup _ := true
  isSymlink _ := false
  readLink _ := .error .notFound
  magicLink _ := none
  permission d := if d = 2 ∧ !searchable then .error (.other 13) else .ok ()
  mntRoot m := if m = 1 then 2 else 0
  location m := if m = 1 then some ⟨0, 1⟩ else none
  childMountAt m d := if m = 0 ∧ d = 1 then some 1 else none
  depth d := if d = 1 then 1 else 0
  level m := m
  levels := 2
  lookup_parent := by grind
  parent_depth := by grind
  child_location := by grind
  location_level := by grind
  location_within := by
    intro m l h
    obtain rfl : l = ⟨0, 1⟩ := by grind
    exact .single rfl

theorem contained_iff_unsearchable : (sample false).Over ⟨0, 1⟩ 1 ∧ (sample false).Contained ⟨0, 1⟩ := by
  refine ⟨.on rfl, (Vfs.contained_iff (sample false) ⟨0, 1⟩ (.single rfl)).2 (.inr fun m hm hs => ?_)⟩
  cases hm <;> simp_all [sample, Vfs.Searchable]

/-- The caller is in the mount over their root, and `..` leads to the directory that contains the root. -/
theorem dotdot_leaves_root : ∃ p l, (sample true).Within ⟨1, 2⟩ ∧ (sample true).Below ⟨0, 1⟩ ⟨1, 2⟩ ∧
    (sample true).pathLookupat ⟨0, 1⟩ defaultMaxLinks ⟨1, 2⟩ ['.', '.'] {} ⟨0, false⟩ = .ok (p, l) ∧ l.magic = false ∧
    ¬ (sample true).Below ⟨0, 1⟩ p := by
  have hover : (sample true).Over ⟨0, 1⟩ 1 := .on rfl
  have hpar : Path.parent (sample true) ⟨0, 1⟩ = some ⟨0, 0⟩ := by
    rw [Path.parent]
    rfl
  have hmnt : Path.parent (sample true) ⟨1, 2⟩ = some ⟨0, 0⟩ := hover.parent.1.trans hpar
  refine ⟨_, _, .refl, hover.parent.2.to_reflTransGen, Vfs.lookupWith_dotdot ⟨rfl, rfl⟩ (by decide), rfl, fun h => ?_⟩
  rw [hmnt] at h
  exact lt_irrefl _ (Vfs.lt_of_above ((Vfs.parent_above hpar).trans_left h))

end XKernel.Namei
