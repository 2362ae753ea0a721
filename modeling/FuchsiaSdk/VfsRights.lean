import FuchsiaSdk.VfsPath
import Mathlib.Data.Fin.Basic

/-! Rights of vfs connections (`vfs/cpp/flags.h`, `vfs/cpp/internal/node.cc`,
`vfs/cpp/internal/directory.cc`). A connection keeps the flags with which it was created.
`Open` and `Clone` check the flags of a request against those of the connection it comes
from, then add and remove flags before a connection is created or the request is passed on
to a remote directory. -/
namespace FuchsiaSdk.VfsRights
open CleanPath VfsPath List

/-- `fuchsia::io::OpenFlags`. -/
abbrev OpenFlags := BitVec 32

/-- The flags that have a name here. -/
inductive Flag where
  | rightReadable
  | rightWritable
  | rightExecutable
  | directory
  | notDirectory
  | describe
  | nodeReference
  | cloneSameRights
  | posixWritable
  | posixExecutable
  | append
  deriving DecidableEq, Repr

/-- The constants of `fuchsia.io`: each flag is a bit of its own. -/
structure Constants where
  bit : Flag → Fin 32
  distinct : Function.Injective bit
  /-- `OPEN_FLAGS_ALLOWED_WITH_NODE_REFERENCE`. -/
  allowedWithNodeReference : OpenFlags

namespace Constants

variable (consts : Constants)

def flag (name : Flag) : OpenFlags := BitVec.twoPow 32 (consts.bit name)

/-- `(flags & flag) != OpenFlags()`. -/
def has (flags : OpenFlags) (name : Flag) : Bool := flags &&& consts.flag name != 0

/-- `Flags::kFsRights`, which is `OPEN_RIGHTS`. -/
def fsRights : OpenFlags :=
  consts.flag .rightReadable ||| consts.flag .rightWritable ||| consts.flag .rightExecutable

/-- `Flags::kStatusFlags`. -/
def statusFlags : OpenFlags := consts.flag .append ||| consts.flag .nodeReference

/-- `kCommonAllowedFlags`. -/
def commonAllowedFlags : OpenFlags :=
  consts.flag .describe ||| consts.flag .nodeReference ||| consts.flag .posixWritable |||
    consts.flag .posixExecutable ||| consts.flag .cloneSameRights

/-- `Flags::StricterOrSameRights`. -/
def stricterOrSameRights (flagsA flagsB : OpenFlags) : Bool :=
  let rightsA := flagsA &&& consts.fsRights
  let rightsB := flagsB &&& consts.fsRights
  rightsA &&& ~~~rightsB == 0

/-- `Flags::InputPrecondition`. -/
def inputPrecondition (flags : OpenFlags) : Bool :=
  if consts.has flags .directory && consts.has flags .notDirectory then false
  else if consts.has flags .nodeReference && flags &&& ~~~consts.allowedWithNodeReference != 0 then
    false
  else true

/-- `Node::FilterRefFlags`. -/
def filterRefFlags (flags : OpenFlags) : OpenFlags :=
  if consts.has flags .nodeReference then
    flags &&& (consts.commonAllowedFlags ||| consts.flag .directory)
  else flags

end Constants

/-- The kinds of nodes, as `Connect` and the lookup of paths tell them apart. -/
inductive NodeKind where
  | directory
  | remoteDir
  | file
  | service
  deriving DecidableEq, Repr

/-- The nodes that a tree is made of. -/
structure Nodes (Node : Type) where
  lookup : Node → Bytes → Except Status Node
  kind : Node → NodeKind
  allowedFlags : Node → OpenFlags
  prohibitiveFlags : Node → OpenFlags

variable {Node : Type}

def Nodes.isRemote (nodes : Nodes Node) (node : Node) : Bool := nodes.kind node = .remoteDir

def Nodes.isDirectory (nodes : Nodes Node) (node : Node) : Bool :=
  nodes.kind node = .directory || nodes.kind node = .remoteDir

def Nodes.tree (nodes : Nodes Node) : VfsPath.Tree Node := ⟨nodes.lookup, nodes.isRemote⟩

inductive ConnectionKind where
  | node
  | directory
  | file
  deriving DecidableEq, Repr

structure Connection (Node : Type) where
  node : Node
  kind : ConnectionKind
  flags : OpenFlags

/-- Connections and the requests that went to remote directories. -/
structure State (Node : Type) where
  connections : List (Connection Node)
  /-- The flags of the requests forwarded by `OpenRemote`. -/
  opened : List OpenFlags := []
  /-- The flags of the `Clone` requests with which `RemoteDir::Connect` passes a connection on. -/
  cloned : List OpenFlags := []

section Serving

variable (consts : Constants) (nodes : Nodes Node)

/-- `Node::ValidateFlags`: whether it returns `ZX_OK`. -/
def validateFlags (node : Node) (flags : OpenFlags) : Bool :=
  let isDirectory := nodes.isDirectory node
  let allowedFlags := consts.commonAllowedFlags ||| nodes.allowedFlags node |||
    (if isDirectory then consts.flag .directory else consts.flag .notDirectory)
  if !consts.inputPrecondition flags then false
  else if !isDirectory && consts.has flags .directory then false
  else if isDirectory && consts.has flags .notDirectory then false
  else if flags &&& nodes.prohibitiveFlags node != 0 then false
  else if flags &&& ~~~allowedFlags != 0 then false
  else if !isDirectory && consts.has flags .rightExecutable then false
  else true

/-- `Connect`. A remote directory passes the request on and a service hands the channel to
its connector; `created` says whether a connection could be created and bound. -/
def connect (st : State Node) (node : Node) (flags : OpenFlags) (created : Bool) : State Node :=
  let add (kind : ConnectionKind) : State Node :=
    if created then { st with connections := st.connections ++ [⟨node, kind, flags⟩] } else st
  match nodes.kind node with
  | .remoteDir => { st with cloned := st.cloned ++ [flags] }
  | .service => if consts.has flags .nodeReference then add .node else st
  | .directory => if consts.has flags .nodeReference then add .node else add .directory
  | .file => if consts.has flags .nodeReference then add .node else add .file

/-- `Node::Serve`. -/
def serve (st : State Node) (node : Node) (flags : OpenFlags) (created : Bool) : State Node :=
  let flags := consts.filterRefFlags flags
  if validateFlags consts nodes node flags then connect consts nodes st node flags created
  else st

/-- The flags with which `Node::Clone` calls `Serve`. -/
def cloneFlags (flags parentFlags : OpenFlags) : Option OpenFlags :=
  if !consts.inputPrecondition flags then none
  else if consts.has flags .cloneSameRights && flags &&& consts.fsRights != 0 then none
  else
    let flags := flags ||| (parentFlags &&& consts.statusFlags)
    let flags :=
      if consts.has flags .cloneSameRights then
        (flags &&& ~~~consts.fsRights ||| (parentFlags &&& consts.fsRights)) &&&
          ~~~consts.flag .cloneSameRights
      else flags
    if consts.stricterOrSameRights flags parentFlags then some flags else none

def text (characters : String) : Bytes := characters.toList.map fun character => character.toNat.toUInt8

/-- The protocols that are opened without `RIGHT_READABLE`. -/
def protocols : List Bytes :=
  [text "fuchsia.logger.LogSink", text "fuchsia.sysmem.Allocator", text "fuchsia.tracing.provider.Registry"]

/-- Take away a POSIX flag if the parent does not have its right. -/
def limitFlag (posix right : Flag) (flags parentFlags : OpenFlags) : OpenFlags :=
  if consts.has flags posix && !consts.has parentFlags right then flags &&& ~~~consts.flag posix
  else flags

def limitPosix (flags parentFlags : OpenFlags) : OpenFlags :=
  let flags := limitFlag consts .posixWritable .rightWritable flags parentFlags
  limitFlag consts .posixExecutable .rightExecutable flags parentFlags

/-- Add the parent's right for a POSIX flag. -/
def expandFlag (posix right : Flag) (flags parentFlags : OpenFlags) : OpenFlags :=
  if consts.has flags posix then flags ||| (parentFlags &&& consts.flag right) else flags

/-- The expansion of the POSIX flags, which are stripped then. -/
def expandPosix (flags parentFlags : OpenFlags) : OpenFlags :=
  let flags := expandFlag consts .posixWritable .rightWritable flags parentFlags
  let flags := expandFlag consts .posixExecutable .rightExecutable flags parentFlags
  flags &&& ~~~(consts.flag .posixWritable ||| consts.flag .posixExecutable)

/-- `Directory::Open` of a connection to a directory. -/
def openNode (st : State Node) (directory : Node) (openFlags parentFlags : OpenFlags) (path : Bytes)
    (created : Bool) : State Node :=
  if !consts.inputPrecondition openFlags then st
  else if consts.has openFlags .cloneSameRights then st
  else if !consts.stricterOrSameRights openFlags parentFlags then st
  else if path = [] || path.length > pathMax - 1 then st
  else if consts.has openFlags .notDirectory && (path = [dot] || path.getLast? = some slash) then st
  else
    match lookupPath nodes.tree directory path with
    | some (_, .ok result) =>
      let openFlags := limitPosix consts openFlags parentFlags
      if nodes.isRemote result.node && result.remainingPath != [] then
        { st with opened := st.opened ++ [openFlags] }
      else
        let openFlags :=
          if nodes.isDirectory result.node then expandPosix consts openFlags parentFlags else openFlags
        let openFlags :=
          if protocols.any fun protocol => protocol.isSuffixOf path then
            openFlags &&& ~~~consts.flag .rightReadable
          else openFlags
        let openFlags := if result.isDir then openFlags ||| consts.flag .directory else openFlags
        serve consts nodes st result.node openFlags created
    | _ => st

inductive Request where
  | clone (i : Nat) (flags : OpenFlags) (created : Bool)
  | «open» (i : Nat) (flags : OpenFlags) (path : Bytes) (created : Bool)

/-- A request on one of the connections; only those to directories take `Open`. -/
def step (st : State Node) : Request → State Node
  | .clone i flags created =>
    match st.connections[i]? with
    | none => st
    | some connection =>
      match cloneFlags consts flags connection.flags with
      | none => st
      | some flags => serve consts nodes st connection.node flags created
  | .open i flags path created =>
    match st.connections[i]? with
    | none => st
    | some connection =>
      if connection.kind = .directory then
        openNode consts nodes st connection.node flags connection.flags path created
      else st

/-- What a sequence of requests makes of one connection. -/
def after (first : Connection Node) (requests : List Request) : State Node :=
  requests.foldl (step consts nodes) { connections := [first] }

end Serving

/-! ## Flags bit by bit -/

section Bits

variable {consts : Constants} {flags other : OpenFlags} {name : Flag}

def Flag.isRight : Flag → Bool
  | .rightReadable | .rightWritable | .rightExecutable => true
  | _ => false

lemma has_eq : consts.has flags name = flags.getLsbD (consts.bit name) := by
  have inside : (consts.bit name : Nat) < 32 := (consts.bit name).isLt
  have nonzero : BitVec.twoPow 32 (consts.bit name) ≠ 0#32 := by
    intro zero
    have selected := congrArg (fun bits => bits.getLsbD (consts.bit name)) zero
    simp [inside] at selected
  rw [Constants.has, Constants.flag, BitVec.and_twoPow]
  cases present : flags.getLsbD (consts.bit name) <;> simp [nonzero]

@[simp] lemma has_and :
    consts.has (flags &&& other) name = (consts.has flags name && consts.has other name) := by
  simp only [has_eq, BitVec.getLsbD_and]

@[simp] lemma has_or :
    consts.has (flags ||| other) name = (consts.has flags name || consts.has other name) := by
  simp only [has_eq, BitVec.getLsbD_or]

@[simp] lemma has_not : consts.has (~~~flags) name = !consts.has flags name := by
  simp [has_eq, (consts.bit name).isLt]

@[simp] lemma has_flag : consts.has (consts.flag given) name = decide (given = name) := by
  rw [has_eq, Constants.flag, BitVec.getLsbD_twoPow]
  by_cases same : given = name
  · simp [same]
  · have apart : consts.bit given ≠ consts.bit name := fun equal => same (consts.distinct equal)
    simp [same, Fin.val_inj, apart]

@[simp] lemma has_zero : consts.has 0#32 name = false := by
  simp [has_eq]

lemma has_fsRights : consts.has consts.fsRights name = name.isRight := by
  cases name <;> simp [Constants.fsRights, Flag.isRight]

/-- The rights of some flags are among those of others. -/
def Contained (consts : Constants) (flags limit : OpenFlags) : Prop :=
  ∀ name : Flag, name.isRight = true → consts.has flags name = true → consts.has limit name = true

lemma Contained.trans (first : Contained consts flags other)
    (second : Contained consts other limit) : Contained consts flags limit :=
  fun name right had => second name right (first name right had)

lemma contained_of_stricter (stricter : consts.stricterOrSameRights flags other = true) :
    Contained consts flags other := by
  intro name right had
  have zero : (flags &&& consts.fsRights) &&& ~~~(other &&& consts.fsRights) = 0 := by
    simpa [Constants.stricterOrSameRights] using stricter
  have bit := congrArg (fun flags => consts.has flags name) zero
  simpa [had, has_fsRights, right] using bit

end Bits

/-! ## What `Open` and `Clone` do to the flags -/

section Requests

variable {consts : Constants} {nodes : Nodes Node} {flags parentFlags limit : OpenFlags}

private lemma filterRefFlags_has
    (had : consts.has (consts.filterRefFlags flags) name = true) : consts.has flags name = true := by
  unfold Constants.filterRefFlags at had
  split at had
  · rw [has_and, Bool.and_eq_true] at had
    exact had.1
  · exact had

/-- A node reference keeps no right. -/
private lemma filterRefFlags_reference (reference : consts.has flags .nodeReference = true) :
    consts.has (consts.filterRefFlags flags) .nodeReference = true ∧
      ∀ name : Flag, name.isRight = true → consts.has (consts.filterRefFlags flags) name = false := by
  unfold Constants.filterRefFlags
  rw [if_pos reference]
  constructor
  · simp [reference, Constants.commonAllowedFlags]
  · intro name right
    cases name <;> first | (cases right; done) | simp [Constants.commonAllowedFlags]

lemma cloneFlags_contained (passed : cloneFlags consts flags parentFlags = some cloned) :
    Contained consts cloned parentFlags ∧
      (consts.has parentFlags .nodeReference = true → consts.has cloned .nodeReference = true) := by
  unfold cloneFlags at passed
  split at passed
  · cases passed
  split at passed
  · cases passed
  simp only at passed
  split at passed <;> split at passed
  next same stricter =>
    cases passed
    exact ⟨contained_of_stricter stricter, fun reference => by
      simp [Constants.statusFlags, reference, has_fsRights, Flag.isRight]⟩
  · cases passed
  next same stricter =>
    cases passed
    exact ⟨contained_of_stricter stricter, fun reference => by simp [Constants.statusFlags, reference]⟩
  · cases passed

lemma limitFlag_has (had : consts.has (limitFlag consts posix right flags parentFlags) name = true) :
    consts.has flags name = true := by
  unfold limitFlag at had
  split at had
  · rw [has_and, Bool.and_eq_true] at had
    exact had.1
  · exact had

/-- A POSIX flag is left only where the parent has the right. -/
lemma limitFlag_posix (had : consts.has (limitFlag consts posix right flags parentFlags) posix = true) :
    consts.has parentFlags right = true := by
  unfold limitFlag at had
  split at had
  · simp at had
  next kept => simpa [had] using kept

lemma expandFlag_contained (contained : Contained consts flags parentFlags) :
    Contained consts (expandFlag consts posix right flags parentFlags) parentFlags := by
  intro name isRight had
  unfold expandFlag at had
  split at had
  · rw [has_or, has_and, Bool.or_eq_true, Bool.and_eq_true] at had
    rcases had with had | ⟨had, -⟩
    · exact contained name isRight had
    · exact had
  · exact contained name isRight had

lemma contained_and (contained : Contained consts flags limit) :
    Contained consts (flags &&& mask) limit := by
  intro name isRight had
  rw [has_and, Bool.and_eq_true] at had
  exact contained name isRight had.1

private lemma contained_directory {isDir : Bool} (contained : Contained consts flags limit) :
    Contained consts (if isDir then flags ||| consts.flag .directory else flags) limit := by
  split
  · intro name isRight had
    rw [has_or, has_flag, Bool.or_eq_true] at had
    rcases had with had | same
    · exact contained name isRight had
    · cases of_decide_eq_true same
      cases isRight
  · exact contained

/-- Connections and clone requests with these flags may have been added. -/
def Adds (st next : State Node) (flags : OpenFlags) : Prop :=
  ∃ new cloned, next = { st with
      connections := st.connections ++ new, cloned := st.cloned ++ cloned } ∧
    (∀ connection ∈ new, connection.flags = flags) ∧ ∀ passed ∈ cloned, passed = flags

lemma adds_nothing : Adds st st flags :=
  ⟨[], [], by simp, by simp, by simp⟩

private lemma connect_adds : Adds st (connect consts nodes st node flags created) flags := by
  have added : ∀ kind, Adds st
      (if created then { st with connections := st.connections ++ [⟨node, kind, flags⟩] } else st)
      flags := by
    intro kind
    split
    · exact ⟨[⟨node, kind, flags⟩], [], by simp, by simp, by simp⟩
    · exact adds_nothing
  unfold connect
  simp only
  split
  · exact ⟨[], [flags], by simp, by simp, by simp⟩
  · split
    · exact added .node
    · exact adds_nothing
  · split
    · exact added .node
    · exact added .directory
  · split
    · exact added .node
    · exact added .file

/-- What `Serve` adds to the state has the flags it was called with, or fewer. -/
lemma serve_adds (st : State Node) (node : Node) (flags : OpenFlags) (created : Bool) :
    Adds st (serve consts nodes st node flags created) (consts.filterRefFlags flags) := by
  unfold serve
  simp only
  split
  · exact connect_adds ..
  · exact adds_nothing ..

end Requests

/-! ## Sequences of requests -/

section Sequences

variable {consts : Constants} {nodes : Nodes Node} {st next : State Node} {limit : OpenFlags}

/-- No connection and no request that was passed on has a right beyond the limit. -/
structure Within (consts : Constants) (limit : OpenFlags) (st : State Node) : Prop where
  connections : ∀ connection ∈ st.connections, Contained consts connection.flags limit
  opened : ∀ flags ∈ st.opened, Contained consts flags limit ∧
    (consts.has flags .posixWritable = true → consts.has limit .rightWritable = true) ∧
    (consts.has flags .posixExecutable = true → consts.has limit .rightExecutable = true)
  cloned : ∀ flags ∈ st.cloned, Contained consts flags limit

lemma Adds.within (adds : Adds st next flags) (within : Within consts limit st)
    (contained : Contained consts flags limit) : Within consts limit next := by
  obtain ⟨_, cloned, rfl, connections, passed⟩ := adds
  refine ⟨fun connection mem => ?_, within.opened, fun flags mem => ?_⟩
  · rcases mem_append.mp mem with mem | mem
    · exact within.connections connection mem
    · rw [connections connection mem]
      exact contained
  · rcases mem_append.mp mem with mem | mem
    · exact within.cloned flags mem
    · rw [passed flags mem]
      exact contained

lemma serve_within (within : Within consts limit st) (contained : Contained consts flags limit) :
    Within consts limit (serve consts nodes st node flags created) :=
  (serve_adds st node flags created).within within fun name right had =>
    contained name right (filterRefFlags_has had)

private lemma openNode_within (within : Within consts limit st)
    (parent : Contained consts parentFlags limit) :
    Within consts limit (openNode consts nodes st directory openFlags parentFlags path created) := by
  unfold openNode
  split
  · exact within
  split
  · exact within
  split
  · exact within
  rename_i stricter
  have contained : Contained consts openFlags parentFlags :=
    contained_of_stricter (by simpa using stricter)
  split
  · exact within
  split
  · exact within
  split
  next calls result looked =>
    have limited : Contained consts (limitPosix consts openFlags parentFlags) parentFlags :=
      fun name right had => contained name right (limitFlag_has (limitFlag_has had))
    split
    · refine ⟨within.connections, fun flags member => ?_, within.cloned⟩
      rcases mem_append.mp member with member | member
      · exact within.opened flags member
      rw [mem_singleton.mp member]
      refine ⟨limited.trans parent, fun had => ?_, fun had => ?_⟩
      · exact parent .rightWritable rfl (limitFlag_posix (limitFlag_has had))
      · exact parent .rightExecutable rfl (limitFlag_posix had)
    · apply serve_within within
      refine Contained.trans ?_ parent
      have expanded : Contained consts
          (if nodes.isDirectory result.node then
            expandPosix consts (limitPosix consts openFlags parentFlags) parentFlags
          else limitPosix consts openFlags parentFlags) parentFlags := by
        split
        · exact contained_and (expandFlag_contained (expandFlag_contained limited))
        · exact limited
      apply contained_directory
      split
      · exact contained_and expanded
      · exact expanded
  · exact within

private lemma step_within (within : Within consts limit st) :
    Within consts limit (step consts nodes st request) := by
  cases request with
  | clone i flags created =>
    simp only [step]
    split
    · exact within
    rename_i connection found
    have parent := within.connections connection (mem_of_getElem? found)
    split
    · exact within
    next cloned passed => exact serve_within within ((cloneFlags_contained passed).1.trans parent)
  | «open» i flags path created =>
    simp only [step]
    split
    · exact within
    rename_i connection found
    have parent := within.connections connection (mem_of_getElem? found)
    split
    · exact openNode_within within parent
    · exact within

/-- The flags of a node reference that has no rights. -/
def Bare (consts : Constants) (flags : OpenFlags) : Prop :=
  consts.has flags .nodeReference = true ∧
    ∀ name : Flag, name.isRight = true → consts.has flags name = false

private lemma clone_bare {parent : Connection Node} (found : st.connections[i]? = some parent)
    (reference : consts.has parent.flags .nodeReference = true) :
    ∃ new cloned, step consts nodes st (.clone i flags created) =
        { st with connections := st.connections ++ new, cloned := st.cloned ++ cloned } ∧
      (∀ connection ∈ new, Bare consts connection.flags) ∧ ∀ passed ∈ cloned, Bare consts passed := by
  simp only [step, found]
  split
  · exact ⟨[], [], by simp, by simp, by simp⟩
  rename_i asked passed
  have bare : Bare consts (consts.filterRefFlags asked) :=
    filterRefFlags_reference ((cloneFlags_contained passed).2 reference)
  obtain ⟨new, cloned, added, connections, remotes⟩ :=
    @serve_adds _ consts nodes st parent.node asked created
  refine ⟨new, cloned, added, fun connection mem => ?_, fun flags mem => ?_⟩
  · rw [connections connection mem]
    exact bare
  · rw [remotes flags mem]
    exact bare

/-- Whatever is requested of a connection and of those that come from it, no connection and
no request passed on to a remote directory has a right that the first connection does not
have, and a clone of a node reference is a node reference without rights. -/
theorem rights_never_grow (consts : Constants) (nodes : Nodes Node) (first : Connection Node)
    (requests : List Request) :
    Within consts first.flags (after consts nodes first requests) ∧
    ∀ i flags created parent, (after consts nodes first requests).connections[i]? = some parent →
      consts.has parent.flags .nodeReference = true →
      ∃ new cloned, step consts nodes (after consts nodes first requests)
          (.clone i flags created) =
          { after consts nodes first requests with
            connections := (after consts nodes first requests).connections ++ new
            cloned := (after consts nodes first requests).cloned ++ cloned } ∧
        (∀ connection ∈ new, Bare consts connection.flags) ∧
        ∀ passed ∈ cloned, Bare consts passed := by
  constructor
  · have start : Within consts first.flags { connections := [first] } :=
      ⟨fun connection member => by rw [mem_singleton.mp member]; exact fun _ _ had => had,
        by simp, by simp⟩
    exact foldlRecOn requests _ start fun st within request _ => step_within within
  · intro i flags created parent found reference
    exact clone_bare found reference

end Sequences

end FuchsiaSdk.VfsRights
