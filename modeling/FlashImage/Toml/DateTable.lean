import FlashImage.Toml.Value

/-!
# Tables that spell dates

A table whose first key is `dateKey` stands for the date or time that the string
behind the key spells.  The entries behind the first are passed over.

* `spellsDate` tells such tables from others;
* `Value.resolveDates?` puts the date or time in the place of every such table
  in a value.
-/

namespace FlashImage.Toml

/-- The key that begins a table which spells a date or time. -/
def dateKey : String := "$__toml_private_datetime"

/-- Whether a table with the given entries stands for a date or time. -/
def spellsDate : Entries → Bool
  | (key, _) :: _ => key == dateKey
  | [] => false

/-- The date or time that the first entry of a table spells. -/
def spelledDate? : Entries → Option DateTime
  | (_, .string text) :: _ => DateTime.parse? text.toList
  | _ => none

mutual

/-- The value with dates and times in the place of the tables that spell them.
A table that ought to spell one and does not spoils the value. -/
def Value.resolveDates? : Value → Option Value
  | .array form items => (resolveDatesOfItems? items).map (.array form)
  | .table form entries =>
      if spellsDate entries then (spelledDate? entries).map .dateTime
      else (resolveDatesOfEntries? entries).map (.table form)
  | v => some v

def resolveDatesOfItems? : List Value → Option (List Value)
  | [] => some []
  | v :: vs => do
      let v ← v.resolveDates?
      let vs ← resolveDatesOfItems? vs
      some (v :: vs)

def resolveDatesOfEntries? : List (String × Value) → Option (List (String × Value))
  | [] => some []
  | (k, v) :: es => do
      let v ← v.resolveDates?
      let es ← resolveDatesOfEntries? es
      some ((k, v) :: es)

end

end FlashImage.Toml
