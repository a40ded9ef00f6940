import Checkpoint.CommandLine.FileTree
import Checkpoint.Image.Catalog
import Checkpoint.Main
import Checkpoint.Proofs.Arrangement
import Checkpoint.Proofs.AttributeValues
import Checkpoint.Proofs.Compression
import Checkpoint.Proofs.Consumption
import Checkpoint.Proofs.ContainerForm
import Checkpoint.Proofs.Counts
import Checkpoint.Proofs.ElementText
import Checkpoint.Proofs.Encoding
import Checkpoint.Proofs.ExitCodes
import Checkpoint.Proofs.FieldOrder
import Checkpoint.Proofs.FrontEnds
import Checkpoint.Proofs.Instants
import Checkpoint.Proofs.LengthPrefixes
import Checkpoint.Proofs.Listing
import Checkpoint.Proofs.Merging
import Checkpoint.Proofs.PackedWords
import Checkpoint.Proofs.Packing
import Checkpoint.Proofs.Positions
import Checkpoint.Proofs.ReadFailures
import Checkpoint.Proofs.ReadSizes
import Checkpoint.Proofs.Readable
import Checkpoint.Proofs.SectionReads
import Checkpoint.Proofs.SparseRecords
import Checkpoint.Proofs.StringTables
import Checkpoint.Proofs.Traces
import Checkpoint.Proofs.Truncation
import Checkpoint.Wire.Reading
import Checkpoint.Xml.Script
