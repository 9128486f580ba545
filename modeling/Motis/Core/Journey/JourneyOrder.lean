import Motis.Core.Journey.Journey
import Motis.Lib.FieldOrder

/-! `CISTA_COMPARABLE`: records compared field by field, in the order of their declaration. -/

namespace Motis
open FieldOrder

instance : Ord Attribute := ⟨compareLex (compareOn (·.code)) (compareOn (·.text))⟩

instance : Std.TransOrd Attribute := inferInstanceAs (Std.TransCmp (compareLex _ _))

instance : Std.LawfulEqOrd Attribute where
  eq_of_compare {a b} h := by
    cases a; cases b
    simpa only [compare, compareLex_eq_eq, compareOn_eq_eq, Attribute.mk.injEq] using h

instance : Ord ExternTrip :=
  ⟨compareLex (compareOn (·.id)) <| compareLex (compareOn (·.stationId)) <|
    compareLex (compareOn (·.trainNr)) <| compareLex (compareOn (·.time)) <|
    compareLex (compareOn (·.targetStationId)) <| compareLex (compareOn (·.targetTime))
    (compareOn (·.lineId))⟩

instance : Std.TransOrd ExternTrip := inferInstanceAs (Std.TransCmp (compareLex _ _))

instance : Std.LawfulEqOrd ExternTrip where
  eq_of_compare {a b} h := by
    cases a; cases b
    simpa only [compare, compareLex_eq_eq, compareOn_eq_eq, ExternTrip.mk.injEq] using h

instance : Ord Journey.Trip :=
  ⟨compareLex (compareOn (·.from_)) <| compareLex (compareOn (·.to_)) <|
    compareLex (compareOn (·.externTrip)) (compareOn (·.debug))⟩

instance : Ord Journey.RangedAttribute :=
  ⟨compareLex (compareOn (·.from_)) <| compareLex (compareOn (·.to_)) (compareOn (·.attr))⟩

end Motis
