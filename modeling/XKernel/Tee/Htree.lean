import XKernel.Lib.Bytes
import XKernel.Lib.Result
/-!
# Opening a hash tree of the secure storage

The hash of a node covers its iv, tag and flags and the hashes of its children, that of the root also
the length of the file. Which children there are is not hashed, but follows from how much is hashed:
the ids are read without a gap. So a tree is the list of its nodes: the bits of an id are the path to the
node, and the children of `n` are `2 * n` and `2 * n + 1`.
-/

namespace XKernel.Tee

open Lib Bytes
open List hiding Vector

inductive TeeError
  | generic
  | security
  | corruptObject
  | overflow
  | storage (code : UInt32)
  deriving DecidableEq

abbrev Digest := Vector UInt8 32

structure TeeFsHtreeNodeImage where
  hash : Digest
  iv : Vector UInt8 16
  tag : Vector UInt8 16
  flags : UInt16
  deriving DecidableEq

structure TeeFsHtreeImeta where
  length : UInt64
  maxNodeId : UInt32

/-- The answers to the reads of the two versions of the head and of each node. -/
structure Storage (Head : Type) where
  rpcReadHead : Bool → Except TeeError Head
  rpcReadNode : Nat → Bool → Except TeeError TeeFsHtreeNodeImage

structure TeeFsHtree where
  nodes : List TeeFsHtreeNodeImage
  length : UInt64
  deriving DecidableEq

variable {Head : Type} (storage : Storage Head) (target : Digest)

/-- The loop of `init_head_from_data` over the versions of the root. -/
def initHeadFromData : List Bool → Except TeeError (TeeFsHtreeNodeImage × Head)
  | [] => .error .security
  | vers :: more => do
    let root ← storage.rpcReadNode 1 vers
    if root.hash = target then return (root, ← storage.rpcReadHead vers) else initHeadFromData more

def findNode (nodes : List TeeFsHtreeNodeImage) (n : Nat) : Option TeeFsHtreeNodeImage := nodes[n - 1]?

/-- `init_tree_from_data`, for the ids still to be read: the version of a node is in the flags of its parent. -/
def initTreeFromData : List Nat → List TeeFsHtreeNodeImage → Except TeeError (List TeeFsHtreeNodeImage)
  | [], nodes => .ok nodes
  | n :: ids, nodes => do
    let parent ← okOr (findNode nodes (n >>> 1)) .generic
    let image ← storage.rpcReadNode n (parent.flags &&& 1 <<< (1 + UInt16.ofNat (n &&& 1)) ≠ 0)
    initTreeFromData ids (nodes ++ [image])

namespace TeeFsHtree

variable (ht : TeeFsHtree)

def hashBytes (n : Nat) : Bytes := (findNode ht.nodes n).elim [] fun child => child.hash.toList

/-- What `calc_node_hash_with_ctx` hashes: the root has no parent, and its metadata is hashed. -/
def hashInput (n : Nat) (image : TeeFsHtreeNodeImage) : Bytes :=
  image.iv.toList ++ (image.tag.toList ++ (toLe 2 image.flags.toNat ++
    ((if n = 1 then toLe 8 ht.length.toNat else []) ++ (ht.hashBytes (2 * n) ++ ht.hashBytes (2 * n + 1)))))

/-- The loop of `verify_tree` fails alike at each node. -/
def verifyTree (hash : Bytes → Digest) : Except TeeError Unit :=
  failIf (∃ n ∈ range' 1 ht.nodes.length, ∃ image ∈ findNode ht.nodes n, image.hash ≠ hash
    (ht.hashInput n image)) .corruptObject

/-- What is hashed in the tree. -/
def Hashed : Set Bytes := {input | ∃ n image, 0 < n ∧ findNode ht.nodes n = some image ∧ input = ht.hashInput n image}

end TeeFsHtree

variable (hash : Bytes → Digest) (verifyRoot : Head → Digest → Except TeeError TeeFsHtreeImeta)

/-- `tee_fs_htree_open` of an existing file. `verifyRoot` decrypts the metadata of the head. -/
def teeFsHtreeOpen : Except TeeError TeeFsHtree := do
  let (root, head) ← initHeadFromData storage target [false, true]
  let imeta ← verifyRoot head root.hash
  let nodes ← initTreeFromData storage (range' 2 (imeta.maxNodeId.toNat - 1)) [root]
  -- the counter of the loop is a `u32` too
  failIf (imeta.maxNodeId.toNat + 1 = 2 ^ 32) .overflow
  let ht : TeeFsHtree := ⟨nodes, imeta.length⟩
  ht.verifyTree hash
  return ht

/-- An opened tree starts with the expected hash, and each hash is that of its node. -/
structure Verified (ht : TeeFsHtree) : Prop where
  root : ∃ image, findNode ht.nodes 1 = some image ∧ image.hash = target
  node : ∀ n image, 0 < n → findNode ht.nodes n = some image → image.hash = hash (ht.hashInput n image)

variable {storage target hash verifyRoot} {ht ht' : TeeFsHtree} {n : Nat} {image : TeeFsHtreeNodeImage}

theorem initHeadFromData_hash {head : Head} {versions : List Bool}
    (h : initHeadFromData storage target versions = .ok (image, head)) : image.hash = target := by
  induction versions with
  | nil => cases h
  | cons vers more ih =>
    obtain ⟨root, -, h⟩ := bind_eq_ok.1 h
    split at h
    · obtain ⟨head, -, h⟩ := bind_eq_ok.1 h
      cases h
      assumption
    · exact ih h

theorem initTreeFromData_root {ids : List Nat} {nodes nodes' : List TeeFsHtreeNodeImage}
    (h : initTreeFromData storage ids nodes = .ok nodes')
    (hroot : findNode nodes 1 = some image) : findNode nodes' 1 = some image := by
  induction ids generalizing nodes with
  | nil => cases h; exact hroot
  | cons n ids ih =>
    obtain ⟨parent, -, h⟩ := bind_eq_ok.1 h
    obtain ⟨image, -, h⟩ := bind_eq_ok.1 h
    refine ih h ?_
    rw [findNode, getElem?_append_left (List.getElem?_eq_some_iff.1 hroot).1]
    exact hroot

theorem verified_of_open (h : teeFsHtreeOpen storage target hash verifyRoot = .ok ht) : Verified target hash ht := by
  obtain ⟨⟨root, head⟩, hhead, h⟩ := bind_eq_ok.1 h
  obtain ⟨imeta, -, h⟩ := bind_eq_ok.1 h
  obtain ⟨nodes, hnodes, h⟩ := bind_eq_ok.1 h
  obtain ⟨-, -, h⟩ := bind_eq_ok.1 h
  obtain ⟨_, hverify, h⟩ := bind_eq_ok.1 h
  cases h
  refine ⟨⟨root, initTreeFromData_root hnodes rfl, initHeadFromData_hash hhead⟩,
    fun n image hn himage => by_contra fun hne => ?_⟩
  have := (List.getElem?_eq_some_iff.1 himage).1
  exact failIf_eq_ok.1 hverify ⟨n, mem_range'_1.2 (by omega), image, himage, hne⟩

/-- The parts of what is hashed have fixed lengths. -/
theorem hashInput_inj {image' : TeeFsHtreeNodeImage} (h : ht.hashInput n image = ht'.hashInput n image')
    (hhash : image.hash = image'.hash) :
    image = image' ∧ (n = 1 → ht.length = ht'.length) ∧
      ht.hashBytes (2 * n) ++ ht.hashBytes (2 * n + 1) = ht'.hashBytes (2 * n) ++ ht'.hashBytes (2 * n + 1) := by
  obtain ⟨hiv, h⟩ := append_inj h (by simp)
  obtain ⟨htag, h⟩ := append_inj h (by simp)
  obtain ⟨hflags, h⟩ := append_inj h (by simp)
  obtain ⟨hlength, h⟩ := append_inj h (by split <;> simp)
  have hflags := UInt16.toNat_inj.1 (toLe_inj hflags image.flags.toNat_lt image'.flags.toNat_lt)
  refine ⟨?_, fun hn => UInt64.toNat_inj.1 ?_, h⟩
  · rw [TeeFsHtreeNodeImage.mk.injEq]
    exact ⟨hhash, Vector.toList_inj.1 hiv, Vector.toList_inj.1 htag, hflags⟩
  · rw [if_pos hn, if_pos hn] at hlength
    exact toLe_inj hlength ht.length.toNat_lt ht'.length.toNat_lt

theorem length_hashBytes (ht : TeeFsHtree) (hn : 0 < n) :
    (ht.hashBytes n).length = if n ≤ ht.nodes.length then 32 else 0 := by
  unfold TeeFsHtree.hashBytes findNode
  split
  · rw [getElem?_eq_getElem (by omega)]
    simp
  · rw [getElem?_eq_none (by omega)]
    rfl

section

variable (h : Verified target hash ht) (h' : Verified target hash ht') (hfree : Set.InjOn hash (ht.Hashed ∪ ht'.Hashed))
include h h' hfree

/-- Nodes with one hash are the same, and so are the hashes of their children. -/
theorem same_node (hn : 0 < n) (he : ht.hashBytes n = ht'.hashBytes n) : findNode ht.nodes n = findNode ht'.nodes n ∧
    (n ≤ ht.nodes.length → (n = 1 → ht.length = ht'.length) ∧
      ht.hashBytes (2 * n) ++ ht.hashBytes (2 * n + 1) = ht'.hashBytes (2 * n) ++ ht'.hashBytes (2 * n + 1)) := by
  have hlen := congrArg List.length he
  rw [length_hashBytes ht hn, length_hashBytes ht' hn] at hlen
  by_cases hle : n ≤ ht.nodes.length
  · have hle' : n ≤ ht'.nodes.length := by_contra fun hle' => by simp [hle, hle'] at hlen
    have hf : findNode ht.nodes n = some ht.nodes[n - 1] := getElem?_eq_getElem _
    have hf' : findNode ht'.nodes n = some ht'.nodes[n - 1] := getElem?_eq_getElem _
    have hhash : ht.nodes[n - 1].hash = ht'.nodes[n - 1].hash :=
      Vector.toList_inj.1 (by simpa [TeeFsHtree.hashBytes, hf, hf'] using he)
    have hinput := hfree (.inl ⟨n, _, hn, hf, rfl⟩) (.inr ⟨n, _, hn, hf', rfl⟩)
      ((h.node n _ hn hf).symm.trans (hhash.trans (h'.node n _ hn hf')))
    obtain ⟨himage, hrest⟩ := hashInput_inj hinput hhash
    exact ⟨by rw [hf, hf', himage], fun _ => hrest⟩
  · have hle' : ¬ n ≤ ht'.nodes.length := fun hle' => by simp [hle, hle'] at hlen
    exact ⟨by rw [findNode, findNode, getElem?_eq_none (by omega), getElem?_eq_none (by omega)], (absurd · hle)⟩

/-- From the root down: a right child stands beside a left one, so the children of two nodes with as much
hashed are at the same places. -/
theorem same_hash (hn : 0 < n) : ht.hashBytes n = ht'.hashBytes n := by
  induction n using Nat.strongRecOn with
  | ind n ih =>
    rcases Nat.lt_or_ge n 2 with hlt | hge
    · obtain rfl : n = 1 := by omega
      obtain ⟨⟨root, hroot, heq⟩, root', hroot', heq'⟩ := And.intro h.root h'.root
      simp [TeeFsHtree.hashBytes, hroot, hroot', heq, heq']
    · have he := ih (n / 2) (by omega) (by omega)
      have hlen := congrArg List.length he
      rw [length_hashBytes ht (by omega), length_hashBytes ht' (by omega)] at hlen
      by_cases hle : n / 2 ≤ ht.nodes.length
      · have hpair := ((same_node h h' hfree (by omega) he).2 hle).2
        have hboth := congrArg List.length hpair
        simp only [length_append, length_hashBytes _ (by omega : 0 < 2 * (n / 2)), length_hashBytes _
          (Nat.succ_pos (2 * (n / 2)))] at hboth
        obtain ⟨hl, hr⟩ := append_inj hpair (by
          rw [length_hashBytes ht (by omega), length_hashBytes ht' (by omega)]
          split_ifs at hboth ⊢ <;> omega)
        rcases Nat.mod_two_eq_zero_or_one n with hmod | hmod
        · rwa [show 2 * (n / 2) = n by omega] at hl
        · rwa [show 2 * (n / 2) + 1 = n by omega] at hr
      · have hnil : ∀ ht : TeeFsHtree, ¬ n / 2 ≤ ht.nodes.length → ht.hashBytes n = [] := fun ht hle =>
          eq_nil_of_length_eq_zero ((length_hashBytes ht hn).trans (if_neg (by omega)))
        rw [hnil ht hle, hnil ht' fun hle' => by simp [hle, hle'] at hlen]

end

/-- Two images of the storage that open with the same root hash hold the same tree. -/
theorem teeFsHtreeOpen_binding (hash : Bytes → Digest) (target : Digest)
    (verifyRoot verifyRoot' : Head → Digest → Except TeeError TeeFsHtreeImeta) (storage storage' : Storage Head)
    (ht ht' : TeeFsHtree) (h : teeFsHtreeOpen storage target hash verifyRoot = .ok ht)
    (h' : teeFsHtreeOpen storage' target hash verifyRoot' = .ok ht') (hfree : Set.InjOn hash (ht.Hashed ∪ ht'.Hashed)) :
    ht = ht' := by
  have hv := verified_of_open h
  have hv' := verified_of_open h'
  have hsame := fun i : Nat => same_node hv hv' hfree i.succ_pos (same_hash hv hv' hfree i.succ_pos)
  obtain ⟨root, hroot, -⟩ := hv.root
  have hlength : ht.length = ht'.length := ((hsame 0).2 (List.getElem?_eq_some_iff.1 hroot).1).1 rfl
  rw [TeeFsHtree.mk.injEq]
  exact ⟨List.ext_getElem? fun i => (hsame i).1, hlength⟩

def sampleNode (digest : UInt8) : TeeFsHtreeNodeImage := ⟨.replicate 32 digest, .replicate 16 0, .replicate 16 0, 0⟩

/-- A root and its left child, with the root in one version and another node in the other. -/
def sampleStorage (current : Bool) : Storage Unit :=
  ⟨fun _ => .ok (), fun n vers => .ok (sampleNode (if n = 1 ∧ vers = current then 74 else 34))⟩

/-- The hash of a sample is the length of what is hashed. -/
def sampleOpen (current : Bool) : Except TeeError TeeFsHtree :=
  teeFsHtreeOpen (sampleStorage current) (.replicate 32 74)
    (fun input => .replicate 32 (UInt8.ofNat input.length)) fun _ _ => .ok ⟨5, 2⟩

theorem teeFsHtreeOpen_binding_two : ∃ ht ht', sampleOpen false = .ok ht ∧ sampleOpen true = .ok ht' ∧ ht = ht' := by
  have h : ∀ current, sampleOpen current = .ok ⟨[sampleNode 74, sampleNode 34], 5⟩ := by decide +kernel
  refine ⟨_, _, h false, h true, teeFsHtreeOpen_binding _ _ _ _ _ _ _ _ (h false) (h true) ?_⟩
  rw [Set.union_self]
  rintro _ ⟨n, image, hn, hf, rfl⟩ _ ⟨n', image', hn', hf', rfl⟩ hhash
  rcases n with _ | _ | _ | n <;> rcases n' with _ | _ | _ | n' <;> simp [findNode] at hn hn' hf hf' <;> subst hf hf'
  · rfl
  · exact absurd hhash (by decide +kernel)
  · exact absurd hhash (by decide +kernel)
  · rfl

end XKernel.Tee
