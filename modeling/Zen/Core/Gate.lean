import Zen.Core.Value

/-!
# The gate

The one structural validator, and the admission of live values.
-/

namespace Zen

inductive ErrorKind where
  | none | schemaMismatch | unknownSchema | missingField | typeMismatch | nullMessage
  | malformedBytes | malformedField | unknownField
  deriving DecidableEq

namespace ErrorKind

def nameOf : ErrorKind → ByteString
  | none => "None" | schemaMismatch => "SchemaMismatch" | unknownSchema => "UnknownSchema"
  | missingField => "MissingField" | typeMismatch => "TypeMismatch" | nullMessage => "NullMessage"
  | malformedBytes => "MalformedBytes" | malformedField => "MalformedField"
  | unknownField => "UnknownField"

end ErrorKind

structure Error where
  kind : ErrorKind := .none
  path : ByteString := []
  expected : ByteString := []
  actual : ByteString := []
  detail : ByteString := []
  deriving DecidableEq

def Error.message (e : Error) : ByteString :=
  let loc := if e.path.isEmpty then ascii "<value>" else e.path
  let s := loc ++ ascii ": " ++ e.kind.nameOf
  let s := if !e.expected.isEmpty || !e.actual.isEmpty then
      s ++ ascii " (expected " ++ e.expected ++ ascii ", got " ++ e.actual ++ ascii ")"
    else s
  -- the dash of the source is U+2014, three bytes of UTF-8
  if !e.detail.isEmpty then s ++ [0x20, 0xE2, 0x80, 0x94, 0x20] ++ e.detail else s

inductive Report where
  | firstError | full
  deriving DecidableEq

def Report.collectAll : Report → Bool
  | .firstError => false
  | .full => true

inductive Admission where
  | accept (v : Value)
  | reject (errors : List Error)

namespace Admission

def refuse (errors : List Error) : Admission :=
  .reject (if errors.isEmpty then [{ detail := "refused without detail" }] else errors)

def ok : Admission → Bool
  | accept _ => true
  | reject _ => false

def firstError : Admission → Error
  | accept _ => {}
  | reject errors => errors.headD {}

end Admission

namespace Raw

def Schema.versionLabel (s : Schema) : ByteString := Zen.versionLabel s.name s.version

def fieldPath (base name : ByteString) : ByteString :=
  if base.isEmpty then name else base ++ ascii "." ++ name

def indexPath (path : ByteString) (i : Nat) : ByteString :=
  path ++ ascii "[" ++ decimal i ++ ascii "]"

structure Ctx where
  errs : List Error
  collectAll : Bool
  stopped : Bool := false

def Ctx.emit (ctx : Ctx) (e : Error) : Ctx :=
  { ctx with errs := ctx.errs ++ [e], stopped := ctx.stopped || !ctx.collectAll }

def validatePrimitive (c : Cell) (t : TypeRef) (ctx : Ctx) (path : ByteString) : Ctx :=
  if c.kind ≠ t.kind then ctx.emit ⟨.typeMismatch, path, t.kind.nameOf, c.kind.nameOf, []⟩ else ctx

mutual
def validateValue (v : Value) : Schema → Ctx → ByteString → Ctx
  | ⟨_, _, fields⟩, ctx, base => validateFields v fields ctx base

def validateFields (v : Value) : List Field → Ctx → ByteString → Ctx
  | [], ctx, _ => ctx
  | ⟨name, type, required⟩ :: fields, ctx, base =>
      if ctx.stopped then ctx else
      let path := fieldPath base name
      match v.get name with
      | none =>
          let ctx := if required then
              ctx.emit ⟨.missingField, path, type.label, "absent", []⟩ else ctx
          validateFields v fields ctx base
      | some c => validateFields v fields (validateCell c type ctx path) base

def validateCell (c : Cell) : TypeRef → Ctx → ByteString → Ctx
  | .message schema, ctx, path =>
      if ctx.stopped then ctx else
      let label := (TypeRef.message schema).label
      match c with
      | .message nested =>
          if nested.schema.contentId ≠ schema.contentId then
            ctx.emit ⟨.schemaMismatch, path, label, nested.schema.versionLabel,
              "nested value claims a different shape"⟩
          else validateValue nested schema ctx path
      | .nullMessage => ctx.emit ⟨.nullMessage, path, label, "null", []⟩
      | _ => ctx.emit ⟨.typeMismatch, path, label, c.kind.nameOf, []⟩
  | .list element, ctx, path =>
      if ctx.stopped then ctx else
      match c with
      | .list cells =>
          cells.zipIdx.foldl (fun ctx x =>
            if ctx.stopped then ctx else validateCell x.1 element ctx (indexPath path x.2)) ctx
      | _ => ctx.emit ⟨.typeMismatch, path, (TypeRef.list element).label, c.kind.nameOf, []⟩
  | .int, ctx, path => if ctx.stopped then ctx else validatePrimitive c .int ctx path
  | .float, ctx, path => if ctx.stopped then ctx else validatePrimitive c .float ctx path
  | .text, ctx, path => if ctx.stopped then ctx else validatePrimitive c .text ctx path
  | .bool, ctx, path => if ctx.stopped then ctx else validatePrimitive c .bool ctx path
  | .bytes, ctx, path => if ctx.stopped then ctx else validatePrimitive c .bytes ctx path
end

def validateInto (claimant : Value) (door : Schema) (collectAll : Bool) : List Error :=
  if claimant.schema.contentId ≠ door.contentId then
    [⟨.schemaMismatch, [], door.versionLabel, claimant.schema.versionLabel,
      "claimed shape does not match this door"⟩]
  else (validateValue claimant door { errs := [], collectAll } []).errs

end Raw

def admitLive (claimant : Value) (door : Schema) (report : Report) : Admission :=
  let errs := Raw.validateInto claimant.raw door.raw report.collectAll
  if errs.isEmpty then .accept claimant else .refuse errs

end Zen
