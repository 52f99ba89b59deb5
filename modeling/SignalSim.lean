import SignalSim.Hmm.LabelFile
import SignalSim.Mgen.Client.Attachments
import SignalSim.Mgen.Client.Session
import SignalSim.Mgen.Messenger.Schedule
import SignalSim.Mgen.Messenger.Timeout
import SignalSim.Mgen.Network.Drain
import SignalSim.Mgen.Peer.Delivery
import SignalSim.Mgen.Peer.EstablishConnection
import SignalSim.Mgen.Resend
import SignalSim.Mgen.Server.Locks
import SignalSim.Mgen.Server.SendMessages
import SignalSim.Mgen.SharedUpdater
import SignalSim.Mgen.Wire.Canonical
import SignalSim.Mgen.Wire.PartialWrites
import SignalSim.Mgen.Wire.Relay
import SignalSim.Mgen.Wire.RoundTrip
import SignalSim.Mgentools.Bootstrap
import SignalSim.Mgentools.Interleaving
import SignalSim.Mnettools.Atlas
import SignalSim.Mnettools.ClientNetwork
import SignalSim.Mnettools.Distributions
import SignalSim.Mnettools.PeerNetwork
import SignalSim.SamExtractor.ActiveIits
import SignalSim.SamExtractor.Disorder
import SignalSim.SamExtractor.Histograms
import SignalSim.SamExtractor.MessageLens
import SignalSim.SamExtractor.Offsets
import SignalSim.SamExtractor.Samples
import SignalSim.SamExtractor.Stretches
