import Provisioning.Classpath
import Provisioning.Command.Registry
import Provisioning.Config.Sections
import Provisioning.Filer
import Provisioning.Json.Printer
import Provisioning.Main
import Provisioning.Model.Writing
import Provisioning.ModulePlan
import Provisioning.Provision.Classification
import Provisioning.Report
import Provisioning.Round.Processor
import Provisioning.Source.Layout
import Provisioning.Proofs.Filing
import Provisioning.Proofs.Round.Rendering
import Provisioning.Proofs.Round.Atomic
import Provisioning.Proofs.Round.Discovery
import Provisioning.Proofs.Round.Rearrangement
import Provisioning.Proofs.Module.Declarations
import Provisioning.Proofs.Source.Mentions
import Provisioning.Proofs.Source.Segments
import Provisioning.Proofs.Source.WrittenNames
import Provisioning.Proofs.Source.Occurrences
import Provisioning.Proofs.Module.Mentions
import Provisioning.Proofs.Module.WrittenNames
import Provisioning.Proofs.Config.Layering
import Provisioning.Proofs.Round.Prediction
import Provisioning.Proofs.Json.Printing
import Provisioning.Proofs.Json.Documents
import Provisioning.Proofs.Model.Documents
import Provisioning.Proofs.Model.ReadBack
import Provisioning.Proofs.Classpath.Growth
import Provisioning.Proofs.Classpath.Index
import Provisioning.Proofs.Classpath.Subtyping
import Provisioning.Proofs.Classpath.Overriding
import Provisioning.Proofs.Module.Growth
import Provisioning.Proofs.Module.Rejection
import Provisioning.Proofs.Module.Acceptance
import Provisioning.Proofs.Round.Reporting
import Provisioning.Proofs.Files.Paths
import Provisioning.Proofs.Files.Tree
import Provisioning.Proofs.Files.Created
import Provisioning.Proofs.Round.SingleRound
import Provisioning.Proofs.Round.Directories
import Provisioning.Proofs.Command.Inputs
import Provisioning.Proofs.Module.RuntimeValues
import Provisioning.Proofs.Source.TypeReading
import Provisioning.Proofs.Module.NullGuards
import Provisioning.Proofs.Source.TypeSpelling
import Provisioning.Proofs.Source.TypePrinting
import Provisioning.Proofs.Module.Instances
import Provisioning.Proofs.Module.Providers
import Provisioning.Proofs.Config.Effective
import Provisioning.Proofs.Source.LiteralReading
import Provisioning.Proofs.Source.AnnotationLiterals
