import LicenseHeaders.Main
import LicenseHeaders.Proofs.SecondRun
import LicenseHeaders.Proofs.Replacement
import LicenseHeaders.Proofs.Insertion
import LicenseHeaders.Proofs.Reruns
import LicenseHeaders.Proofs.LineEnds
import LicenseHeaders.Proofs.SingleFile
import LicenseHeaders.Proofs.DryRun
import LicenseHeaders.Proofs.LinkedFiles
import LicenseHeaders.Proofs.Listing
import LicenseHeaders.Proofs.Tallies
import LicenseHeaders.Proofs.Containment
import LicenseHeaders.Proofs.Recognition
import LicenseHeaders.Proofs.CsvRows
import LicenseHeaders.Proofs.JsonReport
import LicenseHeaders.Proofs.Precedence
import LicenseHeaders.Proofs.Growth
import LicenseHeaders.Proofs.Actions
import LicenseHeaders.Proofs.PatternReach
import LicenseHeaders.Proofs.DiffReading
import LicenseHeaders.Proofs.SavedDiffs
import LicenseHeaders.Proofs.Partition
import LicenseHeaders.Proofs.EditScripts
import LicenseHeaders.Proofs.ShownPaths
import LicenseHeaders.Proofs.Cuts
import LicenseHeaders.Proofs.ExtensionChoice
