import ScriptImports.Main
import ScriptImports.Session
import ScriptImports.Proofs.Delivery
import ScriptImports.Proofs.Failing
import ScriptImports.Proofs.History
import ScriptImports.Proofs.Names
import ScriptImports.Proofs.Roots
import ScriptImports.Proofs.Bundled
import ScriptImports.Proofs.PlainSearch
import ScriptImports.Proofs.Certificate
import ScriptImports.Proofs.Grammar
import ScriptImports.Proofs.Writing
import ScriptImports.Proofs.Underway
import ScriptImports.Proofs.Staging
import ScriptImports.Proofs.Interleaving
import ScriptImports.Proofs.Footprint
import ScriptImports.Proofs.NormalForm
import ScriptImports.Proofs.Verification
import ScriptImports.Proofs.Alone
import ScriptImports.Proofs.Registered
import ScriptImports.Proofs.Origins
import ScriptImports.Proofs.Trace
import ScriptImports.Proofs.Listing
import ScriptImports.Proofs.Accounting
import ScriptImports.Proofs.Anchoring
import ScriptImports.Proofs.Remote
import ScriptImports.Proofs.Registrations
import ScriptImports.Proofs.GlobalPaths
import ScriptImports.Proofs.Descriptors
import ScriptImports.Proofs.Lines
import ScriptImports.Proofs.LogTexts
import ScriptImports.Proofs.Overlays
import ScriptImports.Proofs.Documents
