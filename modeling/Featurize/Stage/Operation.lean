import Featurize.Stage.Arithmetic
import Featurize.Stage.Layout
import Featurize.Stage.Naming
import Featurize.Stage.Presence

/-!
Operations: the stages that keep nothing from one record to the next. Each one
is an inductive case with its options, a run on a record, the condition on its
options, and the text that describes it.
-/

namespace Featurize

/-- A stage without memory. -/
inductive Operation where
  | pairPresence
  | maskByPresence (keys : List String)
  | selectColumns (source destination : String) (columns : List Nat)
  | columnVector (keys : List String)
  | oneHotActions (keys : List String) (actions : Nat)
  | stackRows (keys : List String) (size : Nat)
  | slateView (keys : List String) (size : Nat)
  | appendConstant (keys : List String) (axis : Int) (value : Double)
  | unsqueezeRepeat (keys : List String) (axis : Int) (count : Nat)
  | outerProduct (left right output : String) (dropInputs : Bool)
  | identityMatrix (key : String) (size : Nat)
  | concatenate (inputs : List String) (output : String) (axis : Int) (broadcast : Bool)
  | rename (old new : List String)
  | keep (keys : List String)
  | remove (keys : List String)
  | mapTensors (keys : List String) (function : Tensor → Except Fault Tensor) (name : String)

namespace Operation

def run (record : Record) : Operation → Except Fault Record
  | .pairPresence => .ok record.pairPresence
  | .maskByPresence keys => record.maskByPresence keys
  | .selectColumns source destination columns => record.selectColumns source destination columns
  | .columnVector keys => record.columnVector keys
  | .oneHotActions keys actions => record.oneHotActions keys actions
  | .stackRows keys size => record.stackRows keys size
  | .slateView keys size => record.slateView keys size
  | .appendConstant keys axis value => record.appendConstant keys axis value
  | .unsqueezeRepeat keys axis count => record.unsqueezeRepeat keys axis count
  | .outerProduct left right output dropInputs => record.outerProduct left right output dropInputs
  | .identityMatrix key size => .ok (record.identityMatrix key size)
  | .concatenate inputs output axis broadcast => record.concatenate inputs output axis broadcast
  | .rename old new => record.rename (old.zip new)
  | .keep keys => .ok (record.keep keys)
  | .remove keys => .ok (record.remove keys)
  | .mapTensors keys function _ => record.mapTensors keys function

/-- Refuses options with which an operation makes no sense. -/
def check : Operation → Except ConfigFault Unit
  | .oneHotActions _ actions => if actions = 0 then .error .noActions else .ok ()
  | .stackRows _ size => if size = 0 then .error .emptyStackRow else .ok ()
  | .unsqueezeRepeat _ _ count => if count = 0 then .error .noRepeats else .ok ()
  | .outerProduct left right output dropInputs =>
      if dropInputs ∧ (output = left ∨ output = right) then .error (.outputDropped output)
      else .ok ()
  | .identityMatrix _ size => if size = 0 then .error .emptyIdentity else .ok ()
  | .concatenate inputs _ _ _ => if inputs.isEmpty then .error .noConcatenatedKeys else .ok ()
  | .rename old new =>
      if old.length ≠ new.length then .error (.renamedNames old.length new.length) else .ok ()
  | _ => .ok ()

def describe : Operation → String
  | .pairPresence => "ValuePresence()"
  | .maskByPresence keys => "MaskByPresence(" ++ bracketed keys ++ ")"
  | .selectColumns source destination columns =>
      "SelectValuePresenceColumns(" ++ source ++ " -> " ++ destination ++ ", " ++
        toString columns.length ++ " columns)"
  | .columnVector keys => "ColumnVector(" ++ bracketed keys ++ ")"
  | .oneHotActions keys actions =>
      "OneHotActions(" ++ bracketed keys ++ ", num_actions=" ++ toString actions ++ ")"
  | .stackRows keys size =>
      "StackDenseFixedSizeArray(" ++ bracketed keys ++ ", size=" ++ toString size ++ ")"
  | .slateView keys size =>
      "SlateView(" ++ bracketed keys ++ ", slate_size=" ++ toString size ++ ")"
  | .appendConstant keys axis value =>
      "AppendConstant(" ++ bracketed keys ++ ", dim=" ++ toString axis ++ ", const=" ++
        Decimal.fixed 6 value ++ ")"
  | .unsqueezeRepeat keys axis count =>
      "UnsqueezeRepeat(" ++ bracketed keys ++ ", dim=" ++ toString axis ++ ", num_repeat=" ++
        toString count ++ ")"
  | .outerProduct left right output dropInputs =>
      "OuterProduct(" ++ left ++ ", " ++ right ++ " -> " ++ output ++
        (if dropInputs then ", drop_inputs)" else ")")
  | .identityMatrix key size => "GetEye(" ++ key ++ ", size=" ++ toString size ++ ")"
  | .concatenate inputs output axis broadcast =>
      "Cat(" ++ bracketed inputs ++ " -> " ++ output ++ ", dim=" ++ toString axis ++
        (if broadcast then ", broadcast)" else ")")
  | .rename old new => "Rename(" ++ bracketed old ++ " -> " ++ bracketed new ++ ")"
  | .keep keys => "Filter(keep_keys=" ++ bracketed keys ++ ")"
  | .remove keys => "Filter(remove_keys=" ++ bracketed keys ++ ")"
  | .mapTensors keys _ name => "Lambda(" ++ bracketed keys ++ ", " ++ name ++ ")"

end Operation

end Featurize
