import ScriptListing.Main
import ScriptListing.Proofs.Archive.Cache
import ScriptListing.Proofs.Archive.Containment
import ScriptListing.Proofs.Cipher.Decryption
import ScriptListing.Proofs.CommandLine.Exit
import ScriptListing.Proofs.CommandLine.Flag
import ScriptListing.Proofs.Dump.Alias
import ScriptListing.Proofs.Dump.Encoding
import ScriptListing.Proofs.Dump.Graph
import ScriptListing.Proofs.Dump.Soundness
import ScriptListing.Proofs.FileTree.Atomic
import ScriptListing.Proofs.Listing.Faults
import ScriptListing.Proofs.Listing.Isolation
import ScriptListing.Proofs.Listing.Jumps
import ScriptListing.Proofs.Listing.Layout
import ScriptListing.Proofs.Listing.Letters
import ScriptListing.Proofs.Listing.Order
import ScriptListing.Proofs.Listing.Types
import ScriptListing.Proofs.ObjectPath.Canonical
import ScriptListing.Proofs.Property.Flags
import ScriptListing.Proofs.Settings.Layers
import ScriptListing.Proofs.SymbolTable.Shapes
import ScriptListing.Proofs.TypeName.Reach
