import DocumentCache.Journal.Engine
import DocumentCache.Journal.KeyValue

/-!
# Shared engines

One engine behind a lock that all of its users share.  A check that ends without
an answer while the lock is held poisons it: from then on every call is refused,
for all users, until the directory is opened anew.
-/

namespace DocumentCache

structure SharedEngine where
  engine : Engine
  poisoned : Bool

namespace SharedEngine

def ofEngine (engine : Engine) : SharedEngine := ⟨engine, false⟩

/-- Open the engine of a directory; on failure the directory is all that is left. -/
def openOn (settings : Settings) (disk : Disk) : Except (Error × Disk) SharedEngine :=
  (Engine.openOn settings disk).map ofEngine

def refusal : Error := .storageUnavailable .poisoned

/-- Answer a question about the engine. -/
def read {α : Type} (shared : SharedEngine) (question : Engine → α) : Except Error α :=
  if shared.poisoned then .error refusal else .ok (question shared.engine)

/-- Let a call change the engine. -/
def write (shared : SharedEngine) (call : Engine → Except Error Unit × Engine) :
    Except Error Unit × SharedEngine :=
  if shared.poisoned then (.error refusal, shared)
  else
    match call shared.engine with
    | (result, engine) => (result, { shared with engine })

def checkpoint (shared : SharedEngine) : Except Error Unit × SharedEngine :=
  shared.write Engine.checkpoint

/-- How a conditional put went; nothing when its check ended without an answer. -/
def putIf (shared : SharedEngine) (key value : Bytes) (check : Option Bytes → Verdict) :
    Option ConditionalPut × SharedEngine :=
  if shared.poisoned then (some ⟨none, .error refusal⟩, shared)
  else
    match shared.engine.putIf key value check with
    | (none, engine) => (none, ⟨engine, true⟩)
    | (some result, engine) =>
        (some ⟨some (shared.engine.get? key), result⟩, { shared with engine })

/-- The verdict of a check that always answers. -/
def verdict : Except Error Unit → Verdict
  | .ok () => .accept
  | .error error => .refuse error

instance : KeyValueEngine SharedEngine where
  get shared key := shared.read (·.get? key)
  put shared key value := shared.write (·.put key value)
  putIf shared key value check :=
    match shared.putIf key value (fun held => verdict (check held)) with
    | (some outcome, shared) => (outcome, shared)
    | (none, shared) => (⟨none, .error refusal⟩, shared)
  delete shared key := shared.write (·.delete key)
  startingWith shared front := shared.read (·.startingWith front)
  between shared first last := shared.read (·.between first last)

end SharedEngine

end DocumentCache
