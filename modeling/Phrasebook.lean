import Phrasebook.Command.Session
import Phrasebook.Main
import Phrasebook.Proofs.AscendingLevels
import Phrasebook.Proofs.BraceAlternatives
import Phrasebook.Proofs.BuiltPlaces
import Phrasebook.Proofs.CallEnds
import Phrasebook.Proofs.CallKinds
import Phrasebook.Proofs.CapturedConstants
import Phrasebook.Proofs.CatalogFailures
import Phrasebook.Proofs.DiscoveryOrder
import Phrasebook.Proofs.DryRun
import Phrasebook.Proofs.EnteredPaths
import Phrasebook.Proofs.FirstSightings
import Phrasebook.Proofs.HintedKeys
import Phrasebook.Proofs.HookFailures
import Phrasebook.Proofs.JoinedLines
import Phrasebook.Proofs.KeptForms
import Phrasebook.Proofs.KeyAttributes
import Phrasebook.Proofs.MergedSightings
import Phrasebook.Proofs.MisnamedCatalogs
import Phrasebook.Proofs.NamedKeys
import Phrasebook.Proofs.NumberedTags
import Phrasebook.Proofs.OutputTemplates
import Phrasebook.Proofs.PluralForms
import Phrasebook.Proofs.Preservation
import Phrasebook.Proofs.References
import Phrasebook.Proofs.RepeatedRun
import Phrasebook.Proofs.RetracedPaths
import Phrasebook.Proofs.ScopeDiscipline
import Phrasebook.Proofs.SelectorPaths
import Phrasebook.Proofs.StarPatterns
import Phrasebook.Proofs.SyncedTexts
import Phrasebook.Proofs.TextExpressions
import Phrasebook.Proofs.UnclaimedValues
import Phrasebook.Proofs.WholeObjects
