/-!
# Whole occurrences

A name occurs whole in a text when it stands somewhere with no character of its own class right before
or after it. What the class is depends on who asks, so it is a parameter.
-/

namespace SchemaModules.Text

/-- `name` stands in `text` with no character of the class `p` next to it. -/
def OccursWhole (p : Char → Bool) (name text : List Char) : Prop :=
  ∃ before after, text = before ++ name ++ after ∧
    (∀ c ∈ before.getLast?, p c = false) ∧ ∀ c ∈ after.head?, p c = false

end SchemaModules.Text
