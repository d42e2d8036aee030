import RegisterMachine.Assembly.Builder
import RegisterMachine.Token

/-!
Assembling a source text. Its items are labels, mnemonics, addresses `&name`, literals `ref value`
placed in the text, and bare literals, which go to the data section.
-/
namespace RegisterMachine.Assembly

def lexicon : Lexicon where
  comment := some ';'
  symbols := ['&', ',', ';']

structure Draft where
  builder : Builder := {}
  /-- The labels that the source has defined. -/
  labels : List String := []
  /-- The targets of `&` with the place of the first sign for each. -/
  references : Table String Position := {}
  /-- A directive that waits for its argument. -/
  pending : Option (Directive × Position) := none

def labelName? (text : String) : Option String :=
  let chars := text.toList
  if 1 < chars.length ∧ chars.getLast? = some ':' ∧ chars.head? ≠ some '"' then
    some (String.ofList chars.dropLast)
  else none

def literalOf (token : Token) : Except Fault Literal :=
  (Literal.parse token.text).mapError (.located token.place)

namespace Draft

/-- Notes the target of an `&` that stands at `owner`, unless one before it had the same target. -/
def refer (draft : Draft) (target : String) (owner : Position) : Draft :=
  if draft.references.contains target then draft
  else { draft with references := draft.references.insert target owner }

def argument (draft : Draft) (directive : Directive) (owner : Position) (token : Token) :
    Except Fault Draft :=
  if token.text ∈ ["&", ",", ";"] then .error (.located owner (.missingArgument directive))
  else match directive with
    | .addressOf =>
      .ok { draft.refer token.text owner with
        builder := draft.builder.addressOf token.text
        pending := none }
    | .inline => do
      let value ← literalOf token
      return { draft with builder := draft.builder.literal value, pending := none }

def define (draft : Draft) (name : String) (place : Position) : Except Fault Draft :=
  if name ∈ draft.labels then .error (.located place (.duplicateLabel name))
  else .ok { draft with builder := draft.builder.label name, labels := name :: draft.labels }

def item (draft : Draft) (token : Token) : Except Fault Draft :=
  if token.text ∈ [",", ";"] then .ok draft
  else match labelName? token.text with
    | some name => draft.define name token.place
    | none =>
      if token.text = "&" then .ok { draft with pending := some (.addressOf, token.place) }
      else if token.text = "ref" then .ok { draft with pending := some (.inline, token.place) }
      else match Instruction.ofMnemonic? token.text with
        | some instruction => .ok { draft with builder := draft.builder.instruction instruction }
        | none => do
          let value ← literalOf token
          return { draft with builder := draft.builder.intern value }

def accept (draft : Draft) (token : Token) : Except Fault Draft :=
  match draft.pending with
  | some (directive, owner) => draft.argument directive owner token
  | none => draft.item token

/-- The target that no label defines. Of several, it is the one whose sign has the least place. -/
def undefined? (draft : Draft) : Option (String × Position) :=
  (draft.references.entries.filter fun reference => !draft.builder.defines reference.1).minOn?
    Prod.snd

def finish (draft : Draft) : Except Fault Builder :=
  match draft.pending with
  | some (directive, owner) => .error (.located owner (.missingArgument directive))
  | none =>
    match draft.undefined? with
    | some (name, owner) => .error (.located owner (.undefinedLabel name))
    | none => .ok draft.builder

end Draft

def parse (source : String) : Except Fault Builder := do
  let tokens ← lexicon.tokenize source
  let draft ← tokens.foldlM Draft.accept {}
  draft.finish

def assemble (source : String) : Except Fault Image := do
  let builder ← parse source
  builder.toImage

end RegisterMachine.Assembly
