import EmailTemplate.Main
import EmailTemplate.Files.Disk
import EmailTemplate.Proofs.Adaptation.Placeholders
import EmailTemplate.Proofs.Adaptation.Recorded
import EmailTemplate.Proofs.Adaptation.RoundTrip
import EmailTemplate.Proofs.Command.Batch
import EmailTemplate.Proofs.Template.Cleanup
import EmailTemplate.Proofs.Template.Dependence
import EmailTemplate.Proofs.Template.Meaning
import EmailTemplate.Proofs.Adaptation.Check
import EmailTemplate.Proofs.Json.Record
import EmailTemplate.Proofs.Toml.Overlay
import EmailTemplate.Proofs.Settings.Layers
import EmailTemplate.Proofs.Json.RoundTrip
import EmailTemplate.Proofs.Manifest.RoundTrip
import EmailTemplate.Proofs.Command.Kept
import EmailTemplate.Proofs.Html.Entity
import EmailTemplate.Proofs.PlainText.Escape
import EmailTemplate.Proofs.PlainText.Passes
import EmailTemplate.Proofs.PlainText.Tags
import EmailTemplate.Proofs.PlainText.Attributes
import EmailTemplate.Proofs.PlainText.Wording
import EmailTemplate.Proofs.PlainText.Recognition
import EmailTemplate.Proofs.PlainText.Comments
import EmailTemplate.Proofs.PlainText.Stripping
import EmailTemplate.Proofs.PlainText.WhiteSpace
import EmailTemplate.Proofs.PlainText.Gap
import EmailTemplate.Proofs.PlainText.LineBreak
import EmailTemplate.Proofs.PlainText.Printed
import EmailTemplate.Proofs.PlainText.Shown
import EmailTemplate.Proofs.PlainText.Derivation
import EmailTemplate.Proofs.Adaptation.Lasting
import EmailTemplate.Proofs.Adaptation.Ledger
import EmailTemplate.Proofs.Adaptation.Preheader
import EmailTemplate.Proofs.Request
import EmailTemplate.Proofs.Command.Answer
import EmailTemplate.Proofs.Template.Verbatim
import EmailTemplate.Proofs.Template.Padding
import EmailTemplate.Proofs.Template.Simultaneous
import EmailTemplate.Proofs.Template.Scanning
import EmailTemplate.Proofs.Adaptation.Exhaustion
import EmailTemplate.Proofs.Adaptation.Repetition
import EmailTemplate.Proofs.Adaptation.Spared
import EmailTemplate.Proofs.Adaptation.Comments
import EmailTemplate.Proofs.Html.Declaration
import EmailTemplate.Proofs.Template.Extraction
import EmailTemplate.Proofs.Template.Paths
import EmailTemplate.Proofs.Toml.Union
import EmailTemplate.Proofs.Landmark.Block
import EmailTemplate.Proofs.Landmark.Cta
