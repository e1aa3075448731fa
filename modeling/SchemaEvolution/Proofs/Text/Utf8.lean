import SchemaEvolution.Text.Utf8

namespace SchemaEvolution.Text

@[simp] theorem ofUtf8?_toUtf8 (s : String) : ofUtf8? (toUtf8 s) = some s :=
  dif_pos s.isValidUTF8

theorem toUtf8_injective {s t : String} (h : toUtf8 s = toUtf8 t) : s = t := by
  have h := congrArg ofUtf8? h
  rwa [ofUtf8?_toUtf8, ofUtf8?_toUtf8, Option.some_inj] at h

end SchemaEvolution.Text
