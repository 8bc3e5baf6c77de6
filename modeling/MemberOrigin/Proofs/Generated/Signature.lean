import MemberOrigin.Record.Analysis

/-!
# Signatures of synthesized methods

The signature that generated equality and generated printing have in common.
-/
namespace MemberOrigin

/-- A method as the compiler synthesizes it: overridable, with one parameter and no attributes. -/
structure OneParameterMethod (method : Method) : Prop where
  parameters : method.parameters.length = 1
  overridable : method.isOverridable = true
  attributes : method.attributes = []
  returnAttributes : method.returnAttributes = []

theorem oneParameterMethod_iff {method : Method} :
    (method.parameters.length == 1 && method.isOverridable && method.hasNoAttributes) = true ↔
      OneParameterMethod method := by
  simp only [Method.hasNoAttributes, Bool.and_eq_true, beq_iff_eq, List.isEmpty_iff]
  constructor
  · rintro ⟨⟨parameters, overridable⟩, attributes, returnAttributes⟩
    exact ⟨parameters, overridable, attributes, returnAttributes⟩
  · rintro ⟨parameters, overridable, attributes, returnAttributes⟩
    exact ⟨⟨parameters, overridable⟩, attributes, returnAttributes⟩

/-! ### A record with one property -/

namespace Generated

def intType : Ty := .named "System" "Int32" [] false

def stringBuilder : Ty := .named "System.Text" "StringBuilder" [] false

def pointType : Ty := .named "" "Point" [] false

/-- A public member of the record `Point`. -/
def pointMember (name : String) (token : Int) : Member :=
  ⟨name, token, pointType, false, .publicAccess, [], false⟩

/-- A virtual method of the record `Point`. -/
def pointMethod (name : String) (token : Int) (parameters : List Parameter) (returnType : Ty) :
    Method :=
  { pointMember name token with
    parameters, returnType, returnAttributes := [], isVirtual := true, isOverride := false,
    isSealed := false, isAbstract := false, isOperator := false, hasBody := true }

def pointGetter : Method := pointMethod "get_X" 2 [] intType

def pointProperty : Property :=
  { pointMember "X" 1 with
    type := intType, parameters := [], getter := some pointGetter, setter := none,
    isVirtual := false, isOverride := false, isSealed := false }

def pointField : Field :=
  { pointMember "<X>k__BackingField" 3 with type := intType }

/-- The analysis of `record Point(int X)`, as far as its printing and its equality go. -/
def pointAnalysis : Analysis :=
  { record :=
      { ns := "", name := "Point", typeParameters := [], baseType := none, interfaces := [],
        fields := [pointField], properties := [pointProperty], methods := [pointGetter] }
    isInherited := false, backingFields := ({} : BackingFields).add (pointProperty, pointField)
    memberOrder := some [pointProperty], checked := false }

def pointThis : Variable := ⟨0, .parameter, -1, "this", pointType⟩

end Generated

end MemberOrigin
