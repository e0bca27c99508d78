import Zen.Core.Value

/-!
# Unchecked access

A dereferenced pointer may be null, and a typed accessor throws on a cell of another kind. Both are
faults here, apart from the exceptions that a function throws of its own.
-/

namespace Zen

inductive Fault where
  | absent | nullMessage | badVariantAccess
  deriving DecidableEq

namespace Raw

namespace Cell

def asInt! : Cell → Except Fault Int64
  | int v => .ok v
  | _ => .error .badVariantAccess

def asFloat! : Cell → Except Fault UInt64
  | float bits => .ok bits
  | _ => .error .badVariantAccess

def asText! : Cell → Except Fault ByteString
  | text s => .ok s
  | _ => .error .badVariantAccess

def asBool! : Cell → Except Fault Bool
  | bool b => .ok b
  | _ => .error .badVariantAccess

def asBytes! : Cell → Except Fault ByteString
  | bytes b => .ok b
  | _ => .error .badVariantAccess

-- the pointer of the source, dereferenced
def asMessage! : Cell → Except Fault Value
  | message v => .ok v
  | nullMessage => .error .nullMessage
  | _ => .error .badVariantAccess

def asList! : Cell → Except Fault (List Cell)
  | list cells => .ok cells
  | _ => .error .badVariantAccess

end Cell

def Value.get! (v : Value) (field : ByteString) : Except Fault Cell :=
  match v.get field with
  | some c => .ok c
  | none => .error .absent

end Raw
end Zen
