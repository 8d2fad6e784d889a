import BootSeal.Main
import BootSeal.Proofs.Files.Found
import BootSeal.Proofs.Files.Metadata
import BootSeal.Proofs.Signature.Der
import BootSeal.Proofs.Image.Growth
import BootSeal.Proofs.Image.Union
import BootSeal.Proofs.IntelHex.Line
import BootSeal.Proofs.IntelHex.Meaning
import BootSeal.Proofs.Command.Failures
import BootSeal.Proofs.Signature.Routes
import BootSeal.Proofs.Command.Status
import BootSeal.Proofs.Image.Order
import BootSeal.Proofs.Command.Frame
import BootSeal.Proofs.Files.Readable
import BootSeal.Proofs.Partition.Forms
import BootSeal.Proofs.Block.Placement
import BootSeal.Proofs.Partition.Inverse
import BootSeal.Proofs.Partition.Damage
import BootSeal.Proofs.Image.Exact
import BootSeal.Proofs.Image.Merge
import BootSeal.Proofs.IntelHex.Layout
import BootSeal.Proofs.Partition.Flat
import BootSeal.Proofs.Block.Inverse
import BootSeal.Proofs.Key.Public
import BootSeal.Proofs.Key.Private
import BootSeal.Proofs.Partition.Lines
import BootSeal.Proofs.Block.MagicText
import BootSeal.Proofs.Files.LateFailures
import BootSeal.Proofs.IntelHex.FixedWidth
