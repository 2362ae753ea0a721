import FuchsiaSdk.VfsPath

/-! The `svc` directory of `sys::OutgoingDirectory` (`sys/cpp/outgoing_directory.cc`), two
levels of `vfs::PseudoDir` (`vfs/cpp/pseudo_dir.cc`), and the two maps that it should be.
`RemoveNamedService` takes the instance for the service, an entry is cast to a directory
whatever it is, and a directory stays when its last instance is removed. -/
namespace FuchsiaSdk.SysOutgoing
open CleanPath VfsPath Function

inductive Status where
  | ok
  | invalidArgs
  | notFound
  | alreadyExists
  deriving DecidableEq, Repr

/-- `vfs::internal::IsValidName`. -/
def isValidName (name : Bytes) : Bool :=
  name != [dot] && name != parent && name.length ≤ nameMax && slash ∉ name

/-- `vfs::PseudoDir::entries_by_name_`. -/
abbrev PseudoDir (Entry : Type) := Bytes → Option Entry

namespace PseudoDir

/-- `AddEntry`. -/
def addEntry (dir : PseudoDir Entry) (name : Bytes) (entry : Entry) : Status × PseudoDir Entry :=
  if !isValidName name then (.invalidArgs, dir)
  else if (dir name).isSome then (.alreadyExists, dir)
  else (.ok, Function.update dir name (some entry))

/-- `RemoveEntry`. -/
def removeEntry (dir : PseudoDir Entry) (name : Bytes) : Status × PseudoDir Entry :=
  if (dir name).isNone then (.notFound, dir) else (.ok, Function.update dir name none)

end PseudoDir

/-- An entry of `svc_`: a service, or the directory of a service's instances. -/
inductive Node (Service Instance : Type) where
  | service (service : Service)
  | directory (entries : PseudoDir Instance)

variable {Service Instance : Type}

/-- The calls. -/
inductive Call (Service Instance : Type) where
  | addPublicService (service : Service) (name : Bytes)
  | removePublicService (name : Bytes)
  | addNamedService (handler : Instance) (service inst : Bytes)
  | removeNamedService (service inst : Bytes)

/-- The names of a call. -/
def Call.names : Call Service Instance → List Bytes
  | addPublicService _ name | removePublicService name => [name]
  | addNamedService _ service inst | removeNamedService service inst => [service, inst]

/-- `svc_`. -/
abbrev Svc (Service Instance : Type) := PseudoDir (Node Service Instance)

/-- `GetOrCreateDirectory`: the entries of the directory, or nothing where the node that is
cast is none, or where a refused name leaves a pointer to a directory that was deleted. -/
def getOrCreateDirectory (svc : Svc Service Instance) (name : Bytes) : Option (PseudoDir Instance) :=
  match svc name with
  | some (.directory entries) => some entries
  | some (.service _) => none
  | none => if isValidName name then some fun _ => none else none

/-- A call: its status and the directory behind it, or undefined behaviour. -/
def perform (svc : Svc Service Instance) :
    Call Service Instance → Option (Status × Svc Service Instance)
  | .addPublicService service name => some (svc.addEntry name (.service service))
  | .removePublicService name => some (svc.removeEntry name)
  | .addNamedService handler service inst =>
    (getOrCreateDirectory svc service).map fun entries =>
      let (status, entries) := entries.addEntry inst handler
      (status, Function.update svc service (some (.directory entries)))
  | .removeNamedService service inst =>
    match svc inst with
    | none => some (.ok, svc)
    | some (.service _) => none
    | some (.directory entries) =>
      let (status, entries) := entries.removeEntry service
      some (status, Function.update svc inst (some (.directory entries)))

/-! ## The two maps -/

/-- The public services, and the instances of each service. -/
structure Published (Service Instance : Type) where
  services : Bytes → Option Service
  instances : Bytes → Bytes → Option Instance

def Node.services : Option (Node Service Instance) → Option Service
  | some (.service entry) => some entry
  | some (.directory _) | none => none

def Node.instances : Option (Node Service Instance) → Bytes → Option Instance
  | some (.directory entries) => entries
  | some (.service _) | none => fun _ => none

/-- What a directory publishes. -/
def published (svc : Svc Service Instance) : Published Service Instance :=
  ⟨fun name => Node.services (svc name), fun service => Node.instances (svc service)⟩

/-- Where it is allowed a call changes the maps; otherwise it fails and changes nothing. -/
def Published.Yields (maps changed : Published Service Instance) (allowed : Prop) (failure : Status)
    (outcome : Status × Published Service Instance) : Prop :=
  allowed ∧ outcome = (.ok, changed) ∨ ¬ allowed ∧ outcome = (failure, maps)

/-- What a call should do to the two maps. -/
def Published.Does (maps : Published Service Instance)
    (outcome : Status × Published Service Instance) : Call Service Instance → Prop
  | .addPublicService service name =>
    maps.Yields ⟨Function.update maps.services name (some service), maps.instances⟩
      (maps.services name = none ∧ ∀ inst, maps.instances name inst = none) .alreadyExists outcome
  | .removePublicService name =>
    maps.Yields ⟨Function.update maps.services name none, maps.instances⟩
      (maps.services name ≠ none) .notFound outcome
  | .addNamedService handler service inst =>
    maps.Yields ⟨maps.services, Function.update maps.instances service
        (Function.update (maps.instances service) inst (some handler))⟩
      (maps.instances service inst = none ∧ maps.services service = none) .alreadyExists outcome
  | .removeNamedService service inst =>
    maps.Yields ⟨maps.services, Function.update maps.instances service
        (Function.update (maps.instances service) inst none)⟩
      (maps.instances service inst ≠ none) .notFound outcome

/-- A call is defined and does to the maps what it should. -/
def Right (svc : Svc Service Instance) (call : Call Service Instance) : Prop :=
  ∃ status next, perform svc call = some (status, next) ∧
    (published svc).Does (status, published next) call

/-- What a call needs: a public service is not added in the place of a directory that is
empty, nor is a directory removed as one; a service is not given instances; and for a removal
the instance names a directory, which is that of the service or has no entry of its name
while there is nothing to remove. -/
def Proper (svc : Svc Service Instance) : Call Service Instance → Prop
  | .addPublicService _ name =>
    ∀ entries, svc name = some (.directory entries) → ∃ inst, entries inst ≠ none
  | .removePublicService name => ∀ entries, svc name ≠ some (.directory entries)
  | .addNamedService _ service _ => (published svc).services service = none
  | .removeNamedService service inst => ∃ entries, svc inst = some (.directory entries) ∧
      (service = inst ∨ (published svc).instances service inst = none ∧ entries service = none)

/-- What holds of every call of a history. -/
def Throughout (holds : Svc Service Instance → Call Service Instance → Prop) :
    Svc Service Instance → List (Call Service Instance) → Prop
  | _, [] => True
  | svc, call :: rest => holds svc call ∧
      ∀ status next, perform svc call = some (status, next) → Throughout holds next rest

section Calls

variable {svc : Svc Service Instance} {name service inst : Bytes}

@[simp]
lemma services_published : (published svc).services name = Node.services (svc name) := rfl

@[simp]
lemma instances_published : (published svc).instances name = Node.instances (svc name) := rfl

lemma published_update : published (update svc name node) =
      ⟨update (published svc).services name (Node.services node),
        update (published svc).instances name (Node.instances node)⟩ := by
  rw [Published.mk.injEq]
  constructor <;> funext other <;> by_cases same : other = name <;> simp [same]

lemma update_found (found : svc name = node) : update svc name node = svc := by
  rw [← found, update_eq_self]

lemma addPublicService_right_iff (valid : isValidName name) :
    Right svc (.addPublicService entry name) ↔ Proper svc (.addPublicService entry name) := by
  simp only [Right, Proper, perform, PseudoDir.addEntry, valid, Published.Does, Published.Yields]
  cases found : svc name with
  | none => simp [found, published_update, Node.services, Node.instances]
  | some node => cases node <;> simp [found, Node.services, Node.instances]

lemma removePublicService_right_iff :
    Right svc (.removePublicService name) ↔ Proper svc (.removePublicService name) := by
  simp only [Right, Proper, perform, PseudoDir.removeEntry, Published.Does, Published.Yields]
  cases found : svc name with
  | none => simp [found, Node.services]
  | some node => cases node <;> simp [found, published_update, Node.services, Node.instances]

lemma addNamedService_right_iff (valid : isValidName service) (validInstance : isValidName inst) :
    Right svc (.addNamedService handler service inst) ↔
      Proper svc (.addNamedService handler service inst) := by
  simp only [Right, Proper, perform, getOrCreateDirectory, PseudoDir.addEntry, valid, validInstance,
    Published.Does, Published.Yields]
  cases found : svc service with
  | none => simp [found, published_update, Node.services, Node.instances]
  | some node =>
    cases node with
    | service => simp [found, Node.services]
    | directory entries =>
      cases old : entries inst with
      | none => simp [found, old, published_update, Node.services, Node.instances]
      | some handler => simp [found, old, update_found found, Node.services, Node.instances]

lemma instance_gone {next : Svc Service Instance} (changed : published next = ⟨services, update
      (published svc).instances service (update (Node.instances (svc service)) inst none)⟩) :
    Node.instances (next service) inst = none := by
  have gone := congrArg (fun maps => maps.instances service inst) changed
  simpa using gone

/-- Where the instance names a directory, the entry that is removed is that of the service in
it: the right one only if the two names are the same. -/
lemma removeNamedService_right_iff :
    Right svc (.removeNamedService service inst) ↔ Proper svc (.removeNamedService service inst) := by
  simp only [Right, Proper, perform, PseudoDir.removeEntry, Published.Does, Published.Yields]
  cases found : svc inst with
  | none => simpa using fun present changed => present (instance_gone changed)
  | some node =>
    cases node with
    | service => simp
    | directory entries =>
      by_cases same : service = inst
      · subst same
        cases old : entries service with
        | none => simp [found, old, update_found found, Node.instances]
        | some handler => simp [found, old, published_update, Node.services, Node.instances]
      · cases old : entries service with
        | none => simp [old, update_found found, same]
        | some handler =>
          simpa [old, same] using fun present changed => present (by simpa [same] using instance_gone changed)

lemma right_iff (valid : ∀ name ∈ call.names, isValidName name) : Right svc call ↔ Proper svc call := by
  cases call with
  | addPublicService _ name => exact addPublicService_right_iff (valid name (List.mem_cons_self ..))
  | removePublicService name => exact removePublicService_right_iff
  | addNamedService _ service inst =>
    exact addNamedService_right_iff (valid service (by simp [Call.names])) (valid inst (by simp [Call.names]))
  | removeNamedService service inst => exact removeNamedService_right_iff

end Calls

/-- From the empty directory on, a history of calls with valid names is one of the two maps
exactly if every call finds what it needs. -/
theorem publishes_iff (calls : List (Call Service Instance))
    (valid : ∀ call ∈ calls, ∀ name ∈ call.names, isValidName name) :
    Throughout Right (fun _ => none) calls ↔ Throughout Proper (fun _ => none) calls := by
  suffices every : ∀ svc, Throughout Right svc calls ↔ Throughout Proper svc calls from every _
  intro svc
  induction calls generalizing svc with
  | nil => exact Iff.rfl
  | cons call _ ih =>
    obtain ⟨here, later⟩ := List.forall_mem_cons.mp valid
    refine and_congr (right_iff here) ?_
    exact forall_congr' fun _ => forall_congr' fun next => imp_congr_right fun _ => ih later next

/-- A service is published, and one with an instance of its own name comes and goes. -/
theorem publishes_namesake :
    Throughout Right (fun _ => none)
      [.addPublicService () [1], .addNamedService () [2] [2], .removeNamedService [2] [2]] := by
  refine (publishes_iff _ (by decide)).mpr ⟨nofun, ?_⟩
  rintro _ _ ⟨⟩
  refine ⟨rfl, ?_⟩
  rintro _ _ ⟨⟩
  exact ⟨⟨_, rfl, Or.inl rfl⟩, fun _ _ _ => trivial⟩

/-- The instance that was added is not removed, and the caller is told that it was. -/
theorem removeNamedService_keeps_instance :
    ∃ svc : Svc Unit Unit, perform (fun _ => none) (.addNamedService () [1] [2]) = some (.ok, svc) ∧
      perform svc (.removeNamedService [1] [2]) = some (.ok, svc) ∧
      (published svc).instances [1] [2] = some () :=
  ⟨_, rfl, rfl, rfl⟩

end FuchsiaSdk.SysOutgoing
