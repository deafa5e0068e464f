import Fat32.Main
import Fat32.Tree.Find
import Fat32.Proofs.Cluster.Path
import Fat32.Proofs.Cluster.Resolution
import Fat32.Proofs.Directory.Gathering
import Fat32.Proofs.Directory.Grammar
import Fat32.Proofs.Text.Utf16
import Fat32.Proofs.Directory.Writing
import Fat32.Proofs.Directory.RoundTrip
import Fat32.Proofs.Directory.Reading
import Fat32.Proofs.Tree.Walk
import Fat32.Proofs.Tree.Simulation
import Fat32.Proofs.Performing
import Fat32.Proofs.Cluster.Calls
import Fat32.Proofs.Tree.CallingOff
import Fat32.Proofs.Tree.Accounts
import Fat32.Proofs.Specimen
import Fat32.Proofs.Cluster.Loop
import Fat32.Proofs.Tree.Termination
import Fat32.Proofs.Coupling
import Fat32.Proofs.Volume.Geometry
import Fat32.Proofs.Volume.Answers
import Fat32.Proofs.Transfers
import Fat32.Proofs.Serving
import Fat32.Proofs.Volume.Mounting
import Fat32.Proofs.Volume.Devices
import Fat32.Proofs.Volume.Regions
import Fat32.Proofs.ReadLog
import Fat32.Proofs.Volume.Reads
import Fat32.Proofs.Path
import Fat32.Proofs.Tree.Descent
import Fat32.Proofs.Tree.Subtree
import Fat32.Proofs.Tree.Paths
import Fat32.Proofs.Tree.Policies
import Fat32.Proofs.Tree.Depth
import Fat32.Proofs.Tree.Deadline
import Fat32.Proofs.Cluster.Beginning
import Fat32.Proofs.Directory.Chunks
import Fat32.Proofs.Directory.Checksum
import Fat32.Proofs.Directory.Warnings
import Fat32.Proofs.Directory.Laziness
import Fat32.Proofs.Volume.Content
import Fat32.Proofs.Volume.Files
import Fat32.Proofs.Volume.Layout
import Fat32.Proofs.Directory.Root
import Fat32.Proofs.Cluster.Linking
import Fat32.Proofs.Volume.Records
import Fat32.Proofs.Cluster.Keeping
import Fat32.Proofs.Volume.Subdirectories
import Fat32.Proofs.Tree.Preorder
import Fat32.Proofs.Tree.Finding
import Fat32.Proofs.Tree.Reports
import Fat32.Proofs.Volume.Components
import Fat32.Proofs.Volume.DotNames
import Fat32.Proofs.Directory.ShortNames
import Fat32.Proofs.Command.Options
