import MailMarkup.Document.Yaml
import MailMarkup.Main
import MailMarkup.Proofs.BlankTrimming
import MailMarkup.Proofs.DefaultLayers
import MailMarkup.Proofs.ComponentTables
import MailMarkup.Proofs.FirstFailure
import MailMarkup.Proofs.OutlineLegality
import MailMarkup.Proofs.MarkupCompilation
import MailMarkup.Proofs.AttributePrecedence
import MailMarkup.Proofs.ResolutionExactness
import MailMarkup.Proofs.DiagnosticOrder
import MailMarkup.Proofs.BodyComposition
import MailMarkup.Proofs.DefaultInlining
import MailMarkup.Proofs.ContentSource
import MailMarkup.Proofs.DocumentGrammar
import MailMarkup.Proofs.RendererProtocol
import MailMarkup.Proofs.DecimalText
import MailMarkup.Proofs.DoubleRange
import MailMarkup.Proofs.AdmittedLengths
import MailMarkup.Proofs.FiniteWidths
import MailMarkup.Proofs.TagNesting
import MailMarkup.Proofs.ConditionalMarks
import MailMarkup.Proofs.ClientViews
import MailMarkup.Proofs.PieceReadings
import MailMarkup.Proofs.CalmTemplates
import MailMarkup.Proofs.TemplateNesting
import MailMarkup.Proofs.WellNestedMarkup
import MailMarkup.Proofs.ContextFlow
import MailMarkup.Proofs.TokenLocality
import MailMarkup.Proofs.WrapperSpan
import MailMarkup.Proofs.OptionalRoot
import MailMarkup.Proofs.DataRoundTrip
import MailMarkup.Proofs.WordSplitting
import MailMarkup.Proofs.LengthLists
import MailMarkup.Proofs.NumeralSpelling
import MailMarkup.Proofs.BadgeWidths
import MailMarkup.Proofs.FileReports
import MailMarkup.Proofs.WrapperMarks
import MailMarkup.Proofs.AttributeReading
import MailMarkup.Proofs.DefaultMerging
import MailMarkup.Proofs.HeadDefaults
import MailMarkup.Proofs.ColorSpelling
import MailMarkup.Proofs.SideExpansion
import MailMarkup.Proofs.DefaultEntries
import MailMarkup.Proofs.StyleDeclarations
import MailMarkup.Proofs.BackgroundPlacement
import MailMarkup.Proofs.DeclarationOrder
import MailMarkup.Proofs.PositionAxes
import MailMarkup.Proofs.WarningLines
import MailMarkup.Proofs.DoublePacking
import MailMarkup.Proofs.DoubleRounding
import MailMarkup.Proofs.DecimalRounding
import MailMarkup.Proofs.ShortestDecimal
import MailMarkup.Proofs.DecimalReading
import MailMarkup.Proofs.PrintedLengths
import MailMarkup.Proofs.NearestDouble
import MailMarkup.Proofs.LengthGrammar
import MailMarkup.Proofs.BorderThickness
