import Zen.Core.Schema

/-!
# The schema registry

Published schemas, at most one for each (name, version).
-/

namespace Zen

def conflictWhat (name : ByteString) (version : UInt32) : ByteString :=
  ascii "schema '" ++ name ++ ascii "' v" ++ decimal version.toNat ++
    ascii " is already published with a different shape (published schemas are immutable)"

structure Registry where
  published : List Schema := []

namespace Registry

def lookup (r : Registry) (name : ByteString) (version : UInt32) : Option Schema :=
  r.published.find? fun s => s.name == name && s.version == version

-- the canonical owner and whether the schema is new
def registerSchema (r : Registry) (schema : Schema) : Except Exn (Registry × Schema × Bool) :=
  match r.lookup schema.name schema.version with
  | some existing =>
      if existing.contentId = schema.contentId then .ok (r, existing, false)
      else .error (.schemaConflict (conflictWhat schema.name schema.version))
  | none => .ok ({ r with published := r.published ++ [schema] }, schema, true)

end Registry

-- what a (name, version) and its shape are compared by
def Schema.identity (s : Schema) : ByteString × UInt32 × UInt64 := (s.name, s.version, s.contentId)

theorem Registry.lookup_some {r : Registry} {name : ByteString} {version : UInt32} {s : Schema}
    (h : r.lookup name version = some s) : s.name = name ∧ s.version = version := by
  have found := List.find?_some h
  simpa using found

theorem Registry.registerSchema_identity {r r' : Registry} {schema owner : Schema} {inserted : Bool}
    (h : r.registerSchema schema = .ok (r', owner, inserted)) : owner.identity = schema.identity := by
  unfold registerSchema at h
  cases found : r.lookup schema.name schema.version with
  | none =>
      rw [found] at h
      cases h
      rfl
  | some existing =>
      rw [found] at h
      simp only at h
      split at h
      · rename_i sameId
        cases h
        obtain ⟨name, version⟩ := lookup_some found
        rw [Schema.identity, Schema.identity, name, version, sameId]
      · cases h

end Zen
