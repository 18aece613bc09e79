import Nock.Notebook
import Nock.Proofs.Address
import Nock.Proofs.Axis
import Nock.Proofs.Bits
import Nock.Proofs.Branch
import Nock.Proofs.Cue
import Nock.Proofs.Decrement
import Nock.Proofs.Digits
import Nock.Proofs.Effects
import Nock.Proofs.Grammar
import Nock.Proofs.Halting
import Nock.Proofs.Jam
import Nock.Proofs.Labelling
import Nock.Proofs.Machine
import Nock.Proofs.Mug
import Nock.Proofs.Murmur
import Nock.Proofs.Natural
import Nock.Proofs.Notebook.Definition
import Nock.Proofs.Notebook.Failure
import Nock.Proofs.Notebook.Held
import Nock.Proofs.Notebook.Independence
import Nock.Proofs.Notebook.Invariant
import Nock.Proofs.Notebook.Isolation
import Nock.Proofs.Notebook.Order
import Nock.Proofs.Notebook.Percent
import Nock.Proofs.Notebook.Routes
import Nock.Proofs.Notebook.Variables
import Nock.Proofs.Notebook.Words
import Nock.Proofs.Parser
import Nock.Proofs.Path
import Nock.Proofs.Position
import Nock.Proofs.PrefixCode
import Nock.Proofs.Printer
import Nock.Proofs.Reader
import Nock.Proofs.Reduction
import Nock.Proofs.Repeats
import Nock.Proofs.RoundTrip
import Nock.Proofs.Seeds
import Nock.Proofs.Session
import Nock.Proofs.Sharing
import Nock.Proofs.Store.CommonParts
import Nock.Proofs.Store.Convert
import Nock.Proofs.Store.Copy
import Nock.Proofs.Store.Dictionary
import Nock.Proofs.Store.Footprint
import Nock.Proofs.Store.Growth
import Nock.Proofs.Store.Hash
import Nock.Proofs.Store.Jam
import Nock.Proofs.Store.Reading
import Nock.Proofs.Store.Refinement
import Nock.Proofs.Store.Streams
import Nock.Proofs.Store.Unify
import Nock.Session
import Nock.Workload.Addressing
import Nock.Workload.Commanding
import Nock.Workload.Evaluating
import Nock.Workload.Hashing
import Nock.Workload.Primitives
import Nock.Workload.Printing
import Nock.Workload.Reading
import Nock.Proofs.Store.Gather
