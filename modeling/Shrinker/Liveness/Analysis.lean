import Shrinker.Error
import Shrinker.Liveness.Action
import Shrinker.Liveness.LiveSet
import Shrinker.Program.Lookup

namespace Shrinker.Liveness

open Reference Program

structure Vocabulary where
  types : List TypeId := []
  methods : List MethodId := []
  fields : List FieldId := []
  deriving DecidableEq, Repr

namespace Vocabulary

def join (left right : Vocabulary) : Vocabulary :=
  ⟨left.types ++ right.types, left.methods ++ right.methods, left.fields ++ right.fields⟩

/-- How many actions mention nothing else. A method is marked for one of eight reasons and called in one
of five ways; a field is used in one of four ways; the context of a use may be missing. -/
def actionCount (vocabulary : Vocabulary) : Nat :=
  let types := vocabulary.types.length
  let methods := vocabulary.methods.length
  let fields := vocabulary.fields.length
  2 * types + 8 * methods + fields + 5 * methods * (methods + 1) + 4 * fields * (methods + 1)

end Vocabulary

def Action.vocabulary : Action → Vocabulary
  | .markClass type | .markInstantiated type => { types := [type] }
  | .markMethod method _ => { methods := [method] }
  | .markField field => { fields := [field] }
  | .traceInvoke _ method context => { methods := method :: context.toList }
  | .traceStaticRead field context | .traceStaticWrite field context
  | .traceInstanceRead field context | .traceInstanceWrite field context =>
      { fields := [field], methods := context.toList }

structure Snapshot where
  program : Program
  live : LiveSet
  worklist : Worklist

structure Response (σ : Type) where
  data : σ
  actions : List Action := []
  reported : List MethodId := []

/-- An analysis that keeps data of type `σ`, shared by all analyses of a trace. `vocabulary` has what its
actions mention beyond the program and what it is told. -/
structure Analysis (σ : Type) where
  name : String
  vocabulary : Vocabulary := {}
  methodLive : Snapshot → MethodHit → σ → Except Error (Response σ) :=
    fun _ _ data => .ok { data }
  staticRead : Snapshot → FieldId → Option FieldHit → Option MethodId → σ →
      Except Error (Response σ) :=
    fun _ _ _ _ data => .ok { data }

end Shrinker.Liveness
