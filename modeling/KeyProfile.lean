import KeyProfile.Color
import KeyProfile.Compilation.Pass
import KeyProfile.DriverValue.Decoded
import KeyProfile.FileTree
import KeyProfile.Json.Document
import KeyProfile.LogRouter
import KeyProfile.ProfileFile
import KeyProfile.Registry.Stamped
import KeyProfile.Proofs.Destination
import KeyProfile.Proofs.Outline
import KeyProfile.Proofs.Reading
import KeyProfile.Proofs.Passes
import KeyProfile.Proofs.GroupOrder
import KeyProfile.Proofs.MacroCalls
import KeyProfile.Proofs.MacroIds
import KeyProfile.Proofs.MacroMerging
import KeyProfile.Proofs.TableMeaning
import KeyProfile.Proofs.Independence
import KeyProfile.Proofs.NoFaults
import KeyProfile.Proofs.DestinationForms
import KeyProfile.Proofs.BoundMacros
import KeyProfile.Proofs.KeptFacts
import KeyProfile.Proofs.WireFormat
import KeyProfile.Proofs.EffectUses
import KeyProfile.Proofs.LightingMeaning
import KeyProfile.Proofs.Increments
import KeyProfile.Proofs.Spelling
import KeyProfile.Proofs.WrittenTables
import KeyProfile.Proofs.PressLines
import KeyProfile.Proofs.SinglePass
import KeyProfile.Proofs.LogMeaning
import KeyProfile.Proofs.FileText
import KeyProfile.Proofs.ProfileReading
import KeyProfile.Proofs.HeaderNames
import KeyProfile.Proofs.MacroHeaders
import KeyProfile.Proofs.MacroNames
import KeyProfile.Proofs.Chords
import KeyProfile.Proofs.MacroLines
import KeyProfile.Proofs.ItemIds
import KeyProfile.Proofs.LoadedEffects
import KeyProfile.Proofs.Registrations
import KeyProfile.Proofs.KeyReadings
import KeyProfile.Proofs.StaticColors
import KeyProfile.Proofs.AlikeEffects
import KeyProfile.Proofs.WordReadings
import KeyProfile.Proofs.Classification
import KeyProfile.Proofs.BlankEnds
import KeyProfile.Proofs.HeaderEntries
import KeyProfile.Proofs.HexSpellings
import KeyProfile.Proofs.ColorTexts
import KeyProfile.Proofs.Numerals
import KeyProfile.Proofs.BlankFields
import KeyProfile.Proofs.DarkLayers
import KeyProfile.Proofs.FileLayout
import KeyProfile.Proofs.PassLimits
import KeyProfile.Proofs.HexTexts
import KeyProfile.Proofs.LetterCase
import KeyProfile.Proofs.LiberalNumerals
import KeyProfile.Proofs.Choices
import KeyProfile.Proofs.ClearPaths
import KeyProfile.Proofs.LogMoves
import KeyProfile.Proofs.MacroMeaning
