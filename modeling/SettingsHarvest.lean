import SettingsHarvest.Main
import SettingsHarvest.Proofs.Nix.IndentedString
import SettingsHarvest.Proofs.Nix.PrintedNames
import SettingsHarvest.Proofs.Leaves
import SettingsHarvest.Proofs.ScalarValues
import SettingsHarvest.Proofs.Choices
import SettingsHarvest.Proofs.Evidence
import SettingsHarvest.Proofs.WellFormed
import SettingsHarvest.Proofs.EnumDefaults
import SettingsHarvest.Proofs.Omission
import SettingsHarvest.Proofs.ReferenceCircles
import SettingsHarvest.Proofs.LookupTables
import SettingsHarvest.Proofs.Answers
import SettingsHarvest.Proofs.BoundNames
import SettingsHarvest.Proofs.Depth
import SettingsHarvest.Proofs.SettledAccess
import SettingsHarvest.Proofs.LexicalScope
import SettingsHarvest.Proofs.Parentheses
import SettingsHarvest.Proofs.EvaluationBound
import SettingsHarvest.Proofs.InPlace
import SettingsHarvest.Proofs.MappedLists
import SettingsHarvest.Proofs.OutsideEnums
import SettingsHarvest.Proofs.ExtractionCorrespondence
import SettingsHarvest.Proofs.Layout
import SettingsHarvest.Proofs.AliasedDefaults
import SettingsHarvest.Proofs.OfferedValues
import SettingsHarvest.Proofs.Hiding
import SettingsHarvest.Proofs.Registration
import SettingsHarvest.Proofs.Splitting
import SettingsHarvest.Proofs.Gathering
import SettingsHarvest.Proofs.Nix.Enabling
import SettingsHarvest.Proofs.Usability
import SettingsHarvest.Proofs.WrittenOut
import SettingsHarvest.Proofs.Nix.AttributeNames
import SettingsHarvest.Proofs.Nix.QuotedString
import SettingsHarvest.Proofs.NearestNumbers
import SettingsHarvest.Proofs.ShortestDecimals
import SettingsHarvest.Proofs.Nix.Numbers
import SettingsHarvest.Proofs.Nix.Options
import SettingsHarvest.Proofs.Nix.EnumTypes
import SettingsHarvest.Proofs.Nix.NumericDefaults
import SettingsHarvest.Proofs.EscapedTexts
import SettingsHarvest.Proofs.NumericTypes
import SettingsHarvest.Proofs.MarkedOptions
import SettingsHarvest.Proofs.Nix.RecordDefaults
import SettingsHarvest.Proofs.Words
import SettingsHarvest.Proofs.IntegerLiterals
import SettingsHarvest.Proofs.EnumNumbering
import SettingsHarvest.Proofs.Unions
import SettingsHarvest.Proofs.Merging
import SettingsHarvest.Proofs.PlainLists
import SettingsHarvest.Proofs.LoadedPreferences
import SettingsHarvest.Proofs.Exports
import SettingsHarvest.Proofs.Bags
import SettingsHarvest.Proofs.LongestAlias
import SettingsHarvest.Proofs.CoherentEvidence
import SettingsHarvest.Proofs.NumericLiterals
import SettingsHarvest.Proofs.NumericKeys
import SettingsHarvest.Proofs.DocumentOrder
