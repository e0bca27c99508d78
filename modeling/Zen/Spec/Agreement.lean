import Zen.Core.Registry
import Zen.Lib.Run
import Zen.Spec.Native

/-!
# Agreement on names and versions

A (name, version) occurs in a registry wherever a published schema bears it or nests, at any depth,
a schema that does. The registry itself compares only what is published.
-/

namespace Zen

namespace Raw.Schema

/-- All schemas below the fields. -/
def nested (s : Schema) : List Schema := fieldSchemas s.fields

def Agrees (a b : Schema) : Prop := a.name = b.name → a.version = b.version → a.contentId = b.contentId

instance Agrees.decide (a b : Schema) : Decidable (a.Agrees b) := inferInstanceAs (Decidable (_ → _ → _))

end Raw.Schema

namespace Registry

def occurrences (r : Registry) : List Raw.Schema := r.published.flatMap fun s => s.raw.schemas

def nested (r : Registry) : List Raw.Schema := r.published.flatMap fun s => s.raw.nested

def Coherent (r : Registry) : Prop := ∀ a ∈ r.occurrences, ∀ b ∈ r.occurrences, a.Agrees b

-- a call that does not throw
def publish (schema : Schema) (r : Registry) : Option Registry :=
  (r.registerSchema schema).toOption.map Prod.fst

/-- What the registry does not look at when it takes a new schema. -/
def Unclashing (schema : Schema) (r : Registry) : Prop :=
  r.lookup schema.name schema.version = none →
    (∀ n ∈ schema.raw.nested, ∀ o ∈ r.occurrences ++ schema.raw.schemas, n.Agrees o) ∧
      ∀ n ∈ r.nested, n.Agrees schema.raw

instance Unclashing.decide (schema : Schema) (r : Registry) : Decidable (Unclashing schema r) :=
  inferInstanceAs (Decidable (_ → _ ∧ _))

end Registry
end Zen
