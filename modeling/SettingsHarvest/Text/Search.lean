/-! Texts inside texts. -/
namespace SettingsHarvest.Text

/-- Whether some text occurs within another one. -/
def occursIn (part : List Char) : List Char → Bool
  | [] => part.isEmpty
  | c :: rest => part.isPrefixOf (c :: rest) || occursIn part rest

end SettingsHarvest.Text
