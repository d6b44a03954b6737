import FormLetter.Markup.Pairing
import FormLetter.Data.Access
import FormLetter.Data.Refusal
import FormLetter.Merge.Render
import FormLetter.Merge.Bounded
import FormLetter.Merge.Inspection
import FormLetter.Document.Etree
import FormLetter.Text.Blank
import FormLetter.Package.Listing
import FormLetter.Package.Places
import FormLetter.Package.Saving
import FormLetter.Text.CaseFold
import FormLetter.Text.Quoted
import FormLetter.Xml.Library
import FormLetter.Proofs.Cutting
import FormLetter.Proofs.Passages
import FormLetter.Proofs.Sweeping
import FormLetter.Proofs.Editing
import FormLetter.Proofs.Locating
import FormLetter.Proofs.FlatSections
import FormLetter.Proofs.Passes
import FormLetter.Proofs.PairingReports
import FormLetter.Proofs.Tokenized
import FormLetter.Proofs.ItemScope
import FormLetter.Proofs.Displayed
import FormLetter.Proofs.Residue
import FormLetter.Proofs.Balance
import FormLetter.Proofs.Fragments
import FormLetter.Proofs.InlineSections
import FormLetter.Proofs.BlockSections
import FormLetter.Proofs.Splitting
import FormLetter.Proofs.Rejoining
import FormLetter.Proofs.KeptBranches
import FormLetter.Proofs.RequiredKeys
import FormLetter.Proofs.Rewording
import FormLetter.Proofs.NestedTables
import FormLetter.Proofs.Origins
import FormLetter.Proofs.Rearranged
import FormLetter.Proofs.Independent
import FormLetter.Proofs.Escaped
import FormLetter.Proofs.MergedTexts
import FormLetter.Proofs.Splicing
import FormLetter.Proofs.Verbatim
import FormLetter.Proofs.Refusals
import FormLetter.Proofs.BuiltTrees
import FormLetter.Proofs.RoundTrip
import FormLetter.Proofs.MergedPackages
import FormLetter.Proofs.Saving
import FormLetter.Proofs.Interruptions
import FormLetter.Proofs.OwnErrors
import FormLetter.Proofs.Verdicts
import FormLetter.Proofs.Completions
import FormLetter.Proofs.RunGroups
import FormLetter.Proofs.FoundKeys
import FormLetter.Proofs.MixedRows
import FormLetter.Proofs.CombinedReports
import FormLetter.Proofs.ReplacedTokens
import FormLetter.Proofs.SettledGroups
import FormLetter.Proofs.Placement
